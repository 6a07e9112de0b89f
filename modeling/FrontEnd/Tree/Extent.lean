/-
This file finds the first and the last token of every node, and the place that they enclose.
-/

import FrontEnd.Diagnostic.Basic
import FrontEnd.Tree.Basic

namespace FrontEnd

/-- The token where an expression begins. -/
def Expression.first : Expression → Token
  | .identifier name => name.token
  | .boolean token _ | .number token _ | .string token _ => token
  | .binary left _ _ _ => left.first
  | .prefixed _ token _ => token
  | .postfixed operand _ _ => operand.first
  | .call receiver _ _ => receiver.first
  | .property receiver _ => receiver.first
  | .group opening _ _ => opening
  | .conditional keyword _ _ _ => keyword

/-- The token where an expression ends. -/
def Expression.last : Expression → Token
  | .identifier name => name.token
  | .boolean token _ | .number token _ | .string token _ => token
  | .binary _ _ _ right => right.last
  | .prefixed _ _ operand => operand.last
  | .postfixed _ _ token => token
  | .call _ _ close => close
  | .property _ name => name.token
  | .group _ _ close => close
  | .conditional _ _ _ alternative => alternative.last

/-- The last token of a name that a type and a value may follow. -/
def lastOfBinding (name : Identifier) (type : Option Identifier)
    (value : Option Expression) : Token :=
  match value, type with
  | some value, _ => value.last
  | none, some type => type.token
  | none, none => name.token

def Variable.last (definition : Variable) : Token :=
  lastOfBinding definition.name definition.type definition.value

def Parameter.last (parameter : Parameter) : Token :=
  lastOfBinding parameter.name parameter.type parameter.default

def FunctionDeclaration.last (declared : FunctionDeclaration) : Token :=
  match declared.body, declared.result with
  | some body, _ => body.close
  | none, some result => result.token
  | none, none => declared.parameters.close

def Declaration.first : Declaration → Token
  | .function declared => declared.keyword
  | .variable definition => definition.keyword

def Declaration.last : Declaration → Token
  | .function declared => declared.last
  | .variable definition => definition.last

def Module.first (module : Module) : Token :=
  (module.declarations.head?.map Declaration.first).getD module.boundary

def Module.last (module : Module) : Token :=
  (module.declarations.getLast?.map Declaration.last).getD module.boundary

def Root.first (root : Root) : Token := (root.modules.head?.map Module.first).getD root.marker

namespace Node

/-- A node begins with its first token, which may be a placeholder. -/
def first : Node → Token
  | .expression value => value.first
  | .returned keyword _ => keyword
  | .variable definition => definition.keyword
  | .recovery token => token
  | .block body => body.opening
  | .parameter declared => declared.name.token
  | .parameterList list => list.opening
  | .function declared => declared.keyword
  | .module body => body.first
  | .root whole => whole.first

/-- A node ends with its last token, which may be a placeholder too. -/
def last : Node → Token
  | .expression value => value.last
  | .returned _ value => value.last
  | .variable definition => definition.last
  | .recovery token => token
  | .block body => body.close
  | .parameter declared => declared.last
  | .parameterList list => list.close
  | .function declared => declared.last
  | .module body => body.last
  | .root whole => whole.marker

/-- The end of a node, which placeholders must not carry before its start. -/
def stop (node : Node) : Nat := max node.last.stop node.first.offset

/-- The span of a node reaches from its first token to its last one. -/
def span (node : Node) (source : Source) : Except SourceError Span :=
  source.span node.first.offset node.stop

/-- A diagnostic about a node covers it from its first token to its last. -/
def diagnostic (node : Node) (code : Code) : Diagnostic :=
  ⟨node.first.offset, node.stop - node.first.offset, code⟩

end Node

end FrontEnd
