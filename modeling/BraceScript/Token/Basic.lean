import BraceScript.Source.Position
import BraceScript.Token.Kind

/-! # Tokens

A token is a kind with the text it was read from and the stretch of source that it covers. -/

namespace BraceScript

/-- A piece of source text with its kind and its place. -/
structure Token where
  kind : TokenKind
  literal : String
  span : Span
deriving DecidableEq

namespace Token

/-- The end of the input at `position`: it has no text and covers nothing. -/
def endOfInput (position : Position) : Token := ⟨.endOfInput, "", ⟨position, position⟩⟩

/-- The text under which a token is shown. Kinds that have many spellings show their literal too. -/
def label (token : Token) : String :=
  match token.kind with
  | .identifier | .integer | .illegal => token.kind.label ++ " (" ++ token.literal ++ ")"
  | kind => kind.label

end Token

end BraceScript
