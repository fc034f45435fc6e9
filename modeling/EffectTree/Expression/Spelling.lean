import EffectTree.Text.Quoted

/-!
# Spellings of operators

Outside of quotes `===`, `!==`, `&&`, `||` and `!` stand for `==`, `!=`, `and`, `or` and `not`. A
quoted text ends at its own quote; a backslash inside takes the next character with it.
-/

namespace EffectTree.Expression

def isQuote (c : Char) : Bool := c = Text.singleQuote || c = Text.doubleQuote

/-- Replaces the spellings; the first argument is the quote of the text around, if there is one. -/
def respellChars : Option Char → List Char → List Char
  | _, [] => []
  | some quote, '\\' :: c :: rest => '\\' :: c :: respellChars (some quote) rest
  | some quote, c :: rest => c :: respellChars (if c = quote then none else some quote) rest
  | none, '=' :: '=' :: '=' :: rest => '=' :: '=' :: respellChars none rest
  | none, '!' :: '=' :: '=' :: rest => '!' :: '=' :: respellChars none rest
  | none, '!' :: '=' :: rest => '!' :: '=' :: respellChars none rest
  | none, '!' :: rest => ' ' :: 'n' :: 'o' :: 't' :: ' ' :: respellChars none rest
  | none, '&' :: '&' :: rest => ' ' :: 'a' :: 'n' :: 'd' :: ' ' :: respellChars none rest
  | none, '|' :: '|' :: rest => ' ' :: 'o' :: 'r' :: ' ' :: respellChars none rest
  | none, c :: rest => c :: respellChars (if isQuote c then some c else none) rest

def respell (source : String) : String := String.ofList (respellChars none source.toList)

end EffectTree.Expression
