import SlotGraph.Json.Basic

/-!
# Where imported nodes are placed

Group nodes stand in one column for each document key, the root to the left of
them, and embedded nodes in rows below.
-/

namespace SlotGraph

structure ImportLayout where
  columnStartX : Float
  columnSpacing : Float
  rowStartY : Float
  rowSpacing : Float
  rootX : Float
  embeddedStartY : Float
  embeddedSpacing : Float
  embeddedPerRow : Nat

namespace ImportLayout

def standard : ImportLayout :=
  { columnStartX := 50.0
    columnSpacing := 250.0
    rowStartY := 100.0
    rowSpacing := 150.0
    rootX := -300.0
    embeddedStartY := 600.0
    embeddedSpacing := 220.0
    embeddedPerRow := 6 }

def rowY (layout : ImportLayout) (row : Nat) : Float :=
  layout.rowStartY + Float.ofNat row * layout.rowSpacing

/-- How many embedded nodes stand in one row: at least one. -/
def perRow (layout : ImportLayout) : Nat :=
  max layout.embeddedPerRow 1

def embeddedX (layout : ImportLayout) (n : Nat) : Float :=
  layout.columnStartX + Float.ofNat (n % layout.perRow) * layout.embeddedSpacing

def embeddedY (layout : ImportLayout) (n : Nat) : Float :=
  layout.embeddedStartY + Float.ofNat (n / layout.perRow) * layout.embeddedSpacing

end ImportLayout

end SlotGraph
