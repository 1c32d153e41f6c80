/-! Text set in a column of fixed width. Text wider than the column is left as it is. -/

namespace Overrun.Text

def blanks (count : Nat) : String :=
  String.ofList (List.replicate count ' ')

def alignRight (width : Nat) (text : String) : String :=
  blanks (width - text.length) ++ text

def alignLeft (width : Nat) (text : String) : String :=
  text ++ blanks (width - text.length)

end Overrun.Text
