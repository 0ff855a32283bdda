import SpikingNeuralP.Display.Screen
import SpikingNeuralP.Session.Arguments

/-!
# Interactive session

Draws a panel, obeys the keys typed on standard input and steps by itself while
the panel is running.  Keys are read a line at a time and obeyed in order.
-/

namespace SpikingNeuralP

def screenWidth : Nat := 80

def screenHeight : Nat := 24

def display (panel : Panel) : IO Unit := do
  IO.print "\x1b[2J\x1b[H"
  for row in panel.draw screenWidth screenHeight do
    IO.println row
  (← IO.getStdout).flush

/-- Obeys the keys of a line up to the one that quits. -/
def obeyKeys (panel : Panel) : List Char → Option Panel
  | [] => some panel
  | 'q' :: _ => none
  | key :: keys =>
      match PanelCommand.ofKey? key with
      | some command => obeyKeys (panel.obey command) keys
      | none => obeyKeys panel keys

abbrev PendingLine := Task (Except IO.Error String)

def readLine : IO PendingLine := do
  let input ← IO.getStdin
  IO.asTask input.getLine .dedicated

partial def interact (tickMillis : Nat) (panel : Panel) (pending : PendingLine) : IO Unit := do
  display panel
  if panel.running then
    IO.sleep (UInt32.ofNat (max tickMillis 1))
  if panel.running && !(← IO.hasFinished pending) then
    interact tickMillis panel.step pending
  else
    match pending.get with
    | .error error => throw error
    | .ok "" => return
    | .ok line =>
        match obeyKeys panel line.toList with
        | some panel => interact tickMillis panel (← readLine)
        | none => return

def drawSeed : IO UInt64 := do
  let bytes ← IO.getRandomBytes 8
  return bytes.toList.foldl (fun seed byte => seed * 256 + byte.toUInt64) 0

def start (arguments : Arguments) : IO UInt32 := do
  let seed ← match arguments.seed with
    | some seed => pure seed
    | none => drawSeed
  let session := (arguments.system.network.mapError SimulatorError.network).bind fun network =>
    Session.ofNetwork network arguments.selection seed
  match session with
  | .error error =>
      IO.eprintln error.message
      return 1
  | .ok session =>
      interact arguments.tickMillis (.ofSession session arguments.width) (← readLine)
      return 0

end SpikingNeuralP

def main (words : List String) : IO UInt32 := do
  match SpikingNeuralP.Arguments.read words with
  | .error message =>
      IO.eprintln message
      return 2
  | .ok arguments => SpikingNeuralP.start arguments
