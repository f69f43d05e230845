/-
Values of any kind that a caller may hand over where one kind is asked for,
and how they are shown in the message that refuses them.
-/
import Brainfuck.Text.Quoted

namespace Brainfuck

/-- A value as the caller gave it. A floating-point number is known by its
text only, an integer of fixed width by its number and its text. -/
inductive Value where
  | int (i : Int)
  | fixedInt (i : Int) (shown : String)
  | bool (b : Bool)
  | none
  | float (shown : String)
  | text (s : String)
  | bytes (bs : List UInt8)
  | list (items : List Value)

instance : Inhabited Value := ⟨.none⟩

namespace Value

mutual

/-- A value as a message shows it; texts are quoted. -/
def shown : Value → String
  | int i => Numeral.ofInt i
  | fixedInt _ s => s
  | bool true => "True"
  | bool false => "False"
  | none => "None"
  | float s => s
  | text s => Text.quoted s
  | bytes bs => Text.quotedBytes bs
  | list items => "[" ++ Text.enumerated (shownAll items) ++ "]"

/-- Each value of a list as a message shows it. -/
def shownAll : List Value → List String
  | [] => []
  | v :: vs => v.shown :: shownAll vs

end

/-- A value as it is put into running text: a text stands for itself, and an
integer of any width for its number. -/
def plain : Value → String
  | text s => s
  | fixedInt i _ => Numeral.ofInt i
  | v => v.shown

/-- Whether a value counts as given rather than as empty or zero. -/
def isGiven : Value → Bool
  | int i => i != 0
  | fixedInt i _ => i != 0
  | bool b => b
  | none => false
  | float s => s != "0.0" && s != "-0.0"
  | text s => !s.isEmpty
  | bytes bs => !bs.isEmpty
  | list items => !items.isEmpty

end Value

end Brainfuck
