/-
  What can be wrong with a header or a macro body. An error names the rule of the grammar that
  was not met; the wording follows from that alone.
-/
import HeaderBridge.Source.Span
import HeaderBridge.Token.Kind

namespace HeaderBridge

/-- The rules of the grammar that a text may fail to meet. -/
inductive SyntaxError.Cause where
  | expression
  /-- There is more text behind an expression. -/
  | leftOver
  | typeName
  | listOpening (kind : TokenKind)
  | listClosing (kind : TokenKind)
  | itemAfterComma
  | className
  | superclassName
  | protocolName
  /-- The name of a protocol in a list of conformances. -/
  | conformance
  | classMember
  | protocolMember
  | classEnd
  | protocolEnd
  | propertyName
  | propertyModifier
  | accessorName
  | propertyEnd
  | methodEnd
  | parenthesisAfterType
  | selector
  | parameterName
  | memberName
  | subscriptEnd
  | ternaryColon
  | castOperand
  | groupEnd
  | argumentsEnd
  | messageSelector
  | messageEnd
  deriving DecidableEq

/-- The words for a cause. -/
def SyntaxError.Cause.message : SyntaxError.Cause → String
  | .expression => "Expected expression"
  | .leftOver => "Unexpected token after expression"
  | .typeName => "Expected type name"
  | .listOpening kind => "Expected '" ++ kind.describe ++ "'"
  | .listClosing kind => "Expected '" ++ kind.describe ++ "' to close list"
  | .itemAfterComma => "Expected item after comma"
  | .className => "Expected identifier for class name"
  | .superclassName => "Expected superclass name"
  | .protocolName => "Expected identifier for protocol name"
  | .conformance => "Expected protocol name"
  | .classMember => "Expected an ivar list, @property, or method(s) declaration(s) in class"
  | .protocolMember =>
    "Expected @property, method(s) declaration(s), @optional or @required in protocol"
  | .classEnd => "Expected @end to end class declaration"
  | .protocolEnd => "Expected @end to end protocol declaration"
  | .propertyName => "Expected identifier for property name"
  | .propertyModifier => "Expected property modifier"
  | .accessorName => "Expected selector name after '='"
  | .propertyEnd => "Expected ';' to end property declaration"
  | .methodEnd => "Expected ';' to end method declaration"
  | .parenthesisAfterType => "Expected ')' after type name"
  | .selector => "Expected selector name in method declaration"
  | .parameterName => "Expected parameter name"
  | .memberName => "Expected member name"
  | .subscriptEnd => "Expected ']' to close subscript"
  | .ternaryColon => "Expected ':' in ternary expression"
  | .castOperand => "Expected cast operand"
  | .groupEnd => "Expected ')' to close parenthesized expression"
  | .argumentsEnd => "Expected ')' to close argument list"
  | .messageSelector => "Expected selector in message send"
  | .messageEnd => "Expected ']' to close message send"

/-- A rule that was not met, at the place where this was noticed. -/
structure SyntaxError where
  cause : SyntaxError.Cause
  span : Span
  /-- Already written to the log, so that it is not written there twice. -/
  reported : Bool := false
  deriving DecidableEq

def SyntaxError.message (e : SyntaxError) : String := e.cause.message

end HeaderBridge
