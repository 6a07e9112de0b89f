/-
This file gives tokens and diagnostics the form of JSON values for other programs.
-/

import FrontEnd.Diagnostic.Basic
import FrontEnd.Json

namespace FrontEnd

/-- A kind without members in its family has no name. -/
def TokenKind.exchange (kind : TokenKind) : Json :=
  .object (("kind", .text kind.family) ::
    kind.member?.toList.map fun name => ("name", .text name))

/-- A token as it is handed to other programs. -/
def Token.exchange (token : Token) : Json :=
  .object [("offset", .number token.offset), ("token_type", token.kind.exchange),
    ("lexeme", .text token.lexeme), ("error", .boolean token.error)]

/-- A diagnostic with the place that it has in its source. -/
def Diagnostic.exchange (diagnostic : Diagnostic) (source : Source) : Json :=
  let location := diagnostic.location source
  .object [("source", (source.url.map Json.text).getD .null),
    ("offset", .number diagnostic.offset), ("length", .number diagnostic.length),
    ("line", .number location.line), ("column", .number location.column),
    ("code", .text diagnostic.code.name),
    ("category", .text diagnostic.code.severity.name)]

end FrontEnd
