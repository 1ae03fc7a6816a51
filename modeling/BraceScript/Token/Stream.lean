import BraceScript.Token.Basic

/-! # Token streams

A supply of tokens that never runs dry: after its finitely many tokens it hands out the end of the input
for ever, always at the same place. -/

namespace BraceScript

/-- The tokens still to come, and the place at which the input ends after them. -/
structure TokenStream where
  tokens : List Token
  ending : Position

namespace TokenStream

/-- The stream of a finished list of tokens, which ends at no place in any text. -/
def ofList (tokens : List Token) : TokenStream := ⟨tokens, .null⟩

/-- The token that is handed out next. -/
def head (stream : TokenStream) : Token := stream.tokens.headD (.endOfInput stream.ending)

/-- What is left of a stream after its next token. -/
def tail (stream : TokenStream) : TokenStream := ⟨stream.tokens.tail, stream.ending⟩

/-- How many tokens come before the end. -/
def length (stream : TokenStream) : Nat := stream.tokens.length

end TokenStream

end BraceScript
