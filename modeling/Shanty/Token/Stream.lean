/-
# Streams of tokens

The parser and the token listing see a source as the tokens that could be read
from it, in order. A text without mistakes ends in the end token. Otherwise the
tokens stop short of it, and the stream carries the error that stopped them.
-/

import Shanty.Token.Lexer

namespace Shanty

/-- The tokens of a source text up to its end or to the first mistake. -/
structure TokenStream where
  tokens : List Token
  failure : Option Message

namespace TokenStream

/-- The stream made of what a scanner yielded. -/
def ofScans : List Scan → TokenStream
  | [] => ⟨[], none⟩
  | .token word :: rest => { ofScans rest with tokens := word :: (ofScans rest).tokens }
  | .mistake error span :: _ => ⟨[], some (.error span error.message)⟩
  | .unreadable reason :: _ => ⟨[], some (.error none ("error reading file: " ++ reason))⟩

/-- The stream of a source text, which may break off for a reason. -/
def ofText (text : List Char) (breakage : Option String := none) : TokenStream :=
  ofScans (Scanner.scanAll false { rest := text, breakage })

/-- The remarks that tokens call for. -/
def warnings (tokens : List Token) : List Message := tokens.filterMap Token.warning?

/-- The remarks on all tokens and the error that stopped them. -/
def messages (stream : TokenStream) : List Message :=
  warnings stream.tokens ++ stream.failure.toList

/-- The listing of the tokens, one on each line. -/
def listing (stream : TokenStream) : String :=
  String.join (stream.tokens.map fun token => token.listing ++ "\n")

end TokenStream

end Shanty
