/-!
# Parts of a text

A text between its separators. There is one part more than there are separators, so that an empty
text has one part, which is empty.
-/

namespace JarGate.Text

/-- The parts of a text of which the letters of `before`, reversed, are already read. -/
def partsOnto (separator : Char) (before : List Char) : List Char → List String
  | [] => [String.ofList before.reverse]
  | c :: cs =>
    if c = separator then String.ofList before.reverse :: partsOnto separator [] cs
    else partsOnto separator (c :: before) cs

/-- The parts of a text. -/
def parts (separator : Char) (text : String) : List String :=
  partsOnto separator [] text.toList

end JarGate.Text
