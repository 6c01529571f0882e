/-! # Delimiters of the output

The fixed pieces of the configuration text: what stands between a name and its
value, what ends a line, and what encloses texts and dictionaries. -/

set_option autoImplicit false

namespace ConfigDecl.Output

/-- Between the name of a constant and its value. -/
def constantAssign : String := " is "

def constantEnd : String := ";"

/-- Between a key, or the name of a dictionary, and its value. -/
def dictionaryArrow : String := " -> "

def entryEnd : String := "."

def dictionaryOpen : String := "\x7b"

def dictionaryClose : String := "\x7d"

def textOpen : String := "@\""

def textClose : String := "\""

end ConfigDecl.Output
