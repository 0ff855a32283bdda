import SpikingNeuralP.Session.Demo

/-!
# Arguments

The settings of an interactive session, read from the words of a command line.
Every setting has a default; a setting is given as `--name value` or
`--name=value`, and a later one replaces an earlier one.
-/

namespace SpikingNeuralP

structure Arguments where
  /-- Milliseconds between steps while the session runs by itself. -/
  tickMillis : Nat
  /-- How many columns the raster has. -/
  width : Nat
  system : DemoSystem
  selection : Selection
  /-- The seed of random selection, drawn at the start when there is none. -/
  seed : Option UInt64
  deriving DecidableEq, Repr

namespace Arguments

def standard : Arguments :=
  { tickMillis := 100, width := 80, system := .figure, selection := .first, seed := none }

/-- What the value of a setting stands for, if it stands for anything. -/
def meaning {α : Type} (name value : String) : Option α → Except String α
  | some meaning => .ok meaning
  | none => .error s!"invalid value '{value}' for '{name}'"

/-- A number that fits a word of sixty-four bits. -/
def word? (value : String) : Option Nat :=
  value.toNat?.filter (· < UInt64.size)

def set (arguments : Arguments) (name value : String) : Except String Arguments :=
  match name with
  | "--tick-ms" => do
      return { arguments with tickMillis := ← meaning name value (word? value) }
  | "--width" => do
      return { arguments with width := ← meaning name value (word? value) }
  | "--system" => do
      return { arguments with system := ← meaning name value (DemoSystem.named? false value) }
  | "--selection" => do
      return { arguments with selection := ← meaning name value (Selection.named? false value) }
  | "--seed" => do
      return { arguments with seed := some (UInt64.ofNat (← meaning name value (word? value))) }
  | _ => .error s!"unexpected argument '{name}'"

/-- Splits every `--name=value` into the two words it stands for. -/
def words (arguments : List String) : List String :=
  arguments.flatMap fun word =>
    match word.splitOn "=" with
    | name :: value :: rest =>
        if word.startsWith "--" then [name, "=".intercalate (value :: rest)] else [word]
    | _ => [word]

/-- Applies the settings two words at a time. -/
def readFrom (arguments : Arguments) : List String → Except String Arguments
  | [] => .ok arguments
  | [name] => .error s!"a value is required for '{name}'"
  | name :: value :: rest => do
      let arguments ← arguments.set name value
      arguments.readFrom rest

def read (arguments : List String) : Except String Arguments :=
  standard.readFrom (words arguments)

end Arguments

end SpikingNeuralP
