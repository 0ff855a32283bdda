import SpikingNeuralP.Display.Panel

/-!
# The screen

A panel drawn as text: four boxes with titled borders inside a margin of one
cell, holding the raster, the neuron lines, the output trains and the status.
Text that does not fit its box is cut.
-/

namespace SpikingNeuralP

/-- A rectangle of the screen, given by its left top cell and its size, with
what is written in it. -/
structure Box where
  left : Nat
  top : Nat
  width : Nat
  height : Nat
  title : String
  lines : List String
  deriving DecidableEq, Repr

/-- Puts `patch` in place of the items from `start` on. -/
def overlay {α : Type} (start : Nat) (patch items : List α) : List α :=
  items.take start ++ patch ++ items.drop (start + patch.length)

namespace Box

/-- The top edge carries the title, from the cell after the corner. -/
def topEdge (box : Box) : List Char :=
  let title := box.title.toList.take (box.width - 2)
  '┌' :: title ++ List.replicate (box.width - 2 - title.length) '─' ++ ['┐']

def bottomEdge (box : Box) : List Char :=
  '└' :: List.replicate (box.width - 2) '─' ++ ['┘']

/-- A line of text between the sides, cut or filled up to the inner width. -/
def innerRow (box : Box) (line : String) : List Char :=
  let text := line.toList.take (box.width - 2)
  '│' :: text ++ List.replicate (box.width - 2 - text.length) ' ' ++ ['│']

/-- The rows of the box; one too small for its border shows a part of it. -/
def rows (box : Box) : List (List Char) :=
  let inner := (List.range (box.height - 2)).map fun line => box.innerRow (box.lines.getD line "")
  ((box.topEdge :: inner ++ [box.bottomEdge]).take box.height).map (·.take box.width)

def paint (screen : List (List Char)) (box : Box) : List (List Char) :=
  overlay box.top (List.zipWith (overlay box.left) box.rows (screen.drop box.top)) screen

end Box

/-- The part of `length` that lies before a percentage, to the nearest cell. -/
def portion (percent length : Nat) : Nat :=
  (percent * length + 50) / 100

def trainLine (label : String) (train : List Bool) : String :=
  alignLeft 6 label ++ " " ++ String.ofList (train.map fun bit => if bit then '1' else '0')

/-- A mark stands for a neuron that fired. -/
def markOf (fired : Bool) : Char :=
  if fired then '•' else ' '

namespace Panel

def rasterLine (panel : Panel) (neuron : Nat) (row : List Bool) : String :=
  alignLeft 6 (panel.session.label neuron) ++ "|" ++ String.ofList (row.map markOf)

def rasterLines (panel : Panel) : List String :=
  panel.raster.zipIdx.map fun (row, neuron) => panel.rasterLine neuron row

def trainLines (panel : Panel) : List String :=
  panel.session.outputTrains.map fun (neuron, train) => trainLine (panel.session.label neuron) train

def yesOrNo (flag : Bool) : String :=
  if flag then "yes" else "no"

def statusLine (panel : Panel) : String :=
  let halted := yesOrNo panel.session.isHalted
  let running := yesOrNo panel.running
  let message := (panel.message.map (" | " ++ ·)).getD ""
  s!"Time: {panel.session.time} | Neurons: {panel.session.neuronCount} | Halted: {halted} | " ++
    s!"Running: {running} | Redrawn: {panel.redrawn}{message}"

def keyLine : String :=
  "[s] Step  [b] Back  [x] Reset  [r] Run/Pause  [q] Quit"

/-- The boxes on a screen of the given size: two side by side above two of full
width. -/
def boxes (panel : Panel) (width height : Nat) : List Box :=
  let innerWidth := width - 2
  let innerHeight := height - 2
  let across := portion 60 innerWidth
  let upper := portion 65 innerHeight
  let middle := portion 85 innerHeight
  [{ left := 1, top := 1, width := across, height := upper
     title := "Spike Raster  (time →)", lines := panel.rasterLines },
   { left := 1 + across, top := 1, width := innerWidth - across, height := upper
     title := "Configuration", lines := panel.lines },
   { left := 1, top := 1 + upper, width := innerWidth, height := middle - upper
     title := "Output spike trains", lines := panel.trainLines },
   { left := 1, top := 1 + middle, width := innerWidth, height := innerHeight - middle
     title := "Status", lines := [panel.statusLine, keyLine] }]

/-- The screen of the given size, row by row; cells outside all boxes are
blank. -/
def draw (panel : Panel) (width height : Nat) : List String :=
  let blank := List.replicate height (List.replicate width ' ')
  ((panel.boxes width height).foldl Box.paint blank).map String.ofList

end Panel

end SpikingNeuralP
