/-!
# Text fields

Text filled up to a fixed width on either side.  Width counts characters, and
text that is wider already is kept whole.
-/

namespace SpikingNeuralP

def fillTo (width : Nat) (fill : Char) (text : String) : String :=
  String.ofList (List.replicate (width - text.length) fill)

/-- The text at the left edge of the field. -/
def alignLeft (width : Nat) (text : String) : String :=
  text ++ fillTo width ' ' text

/-- The text at the right edge of the field. -/
def alignRight (width : Nat) (fill : Char) (text : String) : String :=
  fillTo width fill text ++ text

end SpikingNeuralP
