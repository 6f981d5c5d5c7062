/-!
# ASCII letters

Keywords that may be written in either case are compared after the letters `A` to `Z` are lowered.
No other character changes.
-/

namespace SchemaBinding.Text

def lowerLetters (cs : List Char) : List Char := cs.map Char.toLower

end SchemaBinding.Text
