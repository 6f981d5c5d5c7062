/-!
# Faults of a markup document

A document is refused for one of four reasons: input ends inside a piece of markup
(`SyntaxFault`), the pieces do not fit together (`WellFormedFault`), an attribute value holds a
reference that means nothing (`EscapeFault`), or the elements are not one tree (`TreeFault`).

`Fault.message` is the wording of a fault, and `Fault.causes` the wordings of what lies beneath
it, outermost first, each of which the wording above it repeats.
-/

namespace SchemaBinding.Markup

/-- Input ends before a piece of markup is complete, or the piece starts in no known way. -/
inductive SyntaxFault where
  | unclosedTag
  | unclosedQuote (quote : Char)
  | unclosedComment
  | unclosedCharacterData
  | unclosedDoctype
  | unclosedInstruction
  | unclosedDeclaration
  | unknownMarkup
deriving DecidableEq, Repr

/-- A piece of markup is complete but does not fit where it stands. -/
inductive WellFormedFault where
  | unclosedReference
  | namelessDoctype
  | closesNothing (name : String)
  | closesOther (opened name : String)
deriving DecidableEq, Repr

/-- A character reference does not name a character. -/
inductive CharacterFault where
  | signed
  | empty
  | invalidDigit
  | tooLarge
  | zero
  | notScalar (code : Nat)
deriving DecidableEq, Repr

/-- A reference in an attribute value means nothing.  Places are counted in bytes of UTF-8. -/
inductive EscapeFault where
  | unterminated (start stop : Nat)
  | unknownEntity (start stop : Nat) (name : String)
  | character (fault : CharacterFault)
deriving DecidableEq, Repr

/-- The elements of a document are not the traversal of one tree. -/
inductive TreeFault where
  | unbalanced
  | neverClosed (tag : String)
  | secondRoot (tag : String)
  | noRoot
deriving DecidableEq, Repr

inductive Fault where
  | incomplete (fault : SyntaxFault)
  | illFormed (fault : WellFormedFault)
  | escape (fault : EscapeFault)
  | tree (fault : TreeFault)
deriving DecidableEq, Repr

/-- What was looked for and not found. -/
def notFound (what mark : String) : String :=
  what ++ " not closed: `" ++ mark ++ "` not found before end of input"

def SyntaxFault.message : SyntaxFault → String
  | unclosedTag => notFound "tag" ">"
  | unclosedQuote quote => notFound "attribute value" quote.toString
  | unclosedComment => notFound "comment" "-->"
  | unclosedCharacterData => notFound "CDATA" "]]>"
  | unclosedDoctype => notFound "DOCTYPE" ">"
  | unclosedInstruction => notFound "processing instruction" "?>"
  | unclosedDeclaration => notFound "XML declaration" "?>"
  | unknownMarkup => "unknown or missed symbol in markup"

def WellFormedFault.message : WellFormedFault → String
  | unclosedReference => notFound "entity or character reference" ";"
  | namelessDoctype => "`<!DOCTYPE>` declaration does not contain a name of a document type"
  | closesNothing name => "close tag `</" ++ name ++ ">` does not match any open tag"
  | closesOther opened name => "expected `</" ++ opened ++ ">`, but `</" ++ name ++ ">` was found"

def CharacterFault.message : CharacterFault → String
  | signed => "unexpected number sign"
  | empty => "cannot parse integer from empty string"
  | invalidDigit => "invalid digit found in string"
  | tooLarge => "number too large to fit in target type"
  | zero => "0x0 character is not permitted in XML"
  | notScalar code => "`" ++ toString code ++ "` is not a valid codepoint"

def EscapeFault.message : EscapeFault → String
  | unterminated start stop =>
    "Error while escaping character at range " ++ toString start ++ ".." ++ toString stop
      ++ ": Cannot find ';' after '&'"
  | unknownEntity start stop name =>
    "at " ++ toString start ++ ".." ++ toString stop ++ ": unrecognized entity `" ++ name ++ "`"
  | character fault => "invalid character reference: " ++ fault.message

def TreeFault.message : TreeFault → String
  | unbalanced => "unbalanced closing tag"
  | neverClosed tag => "element '" ++ tag ++ "' is never closed"
  | secondRoot tag => "unexpected second root element '" ++ tag ++ "'"
  | noRoot => "no root element found"

/-- The causes beneath a fault of a character reference: a number that cannot be read has one. -/
def CharacterFault.causes (fault : CharacterFault) : List String :=
  match fault with
  | empty | invalidDigit | tooLarge => [fault.message]
  | signed | zero | notScalar _ => []

def EscapeFault.causes : EscapeFault → List String
  | unterminated .. | unknownEntity .. => []
  | character fault => fault.message :: fault.causes

def Fault.causes : Fault → List String
  | incomplete fault => ["syntax error: " ++ fault.message, fault.message]
  | illFormed fault => ["ill-formed document: " ++ fault.message, fault.message]
  | escape fault => fault.message :: fault.causes
  | tree _ => []

def Fault.message : Fault → String
  | incomplete fault => "XML parsing error: syntax error: " ++ fault.message
  | illFormed fault => "XML parsing error: ill-formed document: " ++ fault.message
  | escape fault => "XML escape error: " ++ fault.message
  | tree fault => "invalid document structure: " ++ fault.message

end SchemaBinding.Markup
