/-! A text cut at every separator. There is always one more field than there are separators, so
empty fields at the ends and between neighbours are kept. -/

namespace Overrun.Text

def cut (separator : Char) : List Char → List (List Char)
  | [] => [[]]
  | c :: rest =>
    if c = separator then [] :: cut separator rest
    else match cut separator rest with
      | [] => [[c]]
      | field :: fields => (c :: field) :: fields

def fields (separator : Char) (text : String) : List String :=
  (cut separator text.toList).map String.ofList

end Overrun.Text
