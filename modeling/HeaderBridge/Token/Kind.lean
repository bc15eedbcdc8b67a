/-
  The kinds of tokens in an Objective-C header and in the body of a macro. Plain words (`id`,
  `sizeof`, `YES`, `nonnull`) are all identifiers: a grammar rule knows them by their text. Only
  the directives that start with an at sign have kinds of their own.
-/

namespace HeaderBridge

inductive TokenKind where
  | atInterface | atImplementation | atProtocol | atEnd | atProperty | atOptional | atRequired
  | atClass
  /-- Any other word behind an at sign. -/
  | atOther
  | plus | minus | star | slash | percent | amp | ampAmp | pipe | pipePipe | caret | tilde | bang
  | eqEq | notEq | less | greater | lessEq | greaterEq | shiftLeft | shiftRight | eq | plusEq
  | minusEq | starEq | slashEq | arrow | question
  | leftParen | rightParen | leftBracket | rightBracket | leftBrace | rightBrace | comma
  | semicolon | colon | dot
  /-- An integer with any `u` or `l` suffix. -/
  | intLiteral
  /-- A floating number with any suffix. -/
  | floatLiteral
  /-- A string with its quotes, and with the at sign in front if there is one. -/
  | stringLiteral
  | charLiteral
  | identifier
  | comment
  /-- A whole preprocessor line, with the lines that continue it. -/
  | directive
  | endOfFile
  /-- Text that is no token. -/
  | invalid
  deriving DecidableEq

namespace TokenKind

def isAtKeyword : TokenKind → Bool
  | .atInterface | .atImplementation | .atProtocol | .atEnd | .atProperty | .atOptional
  | .atRequired | .atClass | .atOther => true
  | _ => false

/-- The spelling of a token with a fixed text, and a name for every other kind. -/
def describe : TokenKind → String
  | .atInterface => "@interface"
  | .atImplementation => "@implementation"
  | .atProtocol => "@protocol"
  | .atEnd => "@end"
  | .atProperty => "@property"
  | .atOptional => "@optional"
  | .atRequired => "@required"
  | .atClass => "@class"
  | .atOther => "@-directive"
  | .plus => "+"
  | .minus => "-"
  | .star => "*"
  | .slash => "/"
  | .percent => "%"
  | .amp => "&"
  | .ampAmp => "&&"
  | .pipe => "|"
  | .pipePipe => "||"
  | .caret => "^"
  | .tilde => "~"
  | .bang => "!"
  | .eqEq => "=="
  | .notEq => "!="
  | .less => "<"
  | .greater => ">"
  | .lessEq => "<="
  | .greaterEq => ">="
  | .shiftLeft => "<<"
  | .shiftRight => ">>"
  | .eq => "="
  | .plusEq => "+="
  | .minusEq => "-="
  | .starEq => "*="
  | .slashEq => "/="
  | .arrow => "->"
  | .question => "?"
  | .leftParen => "("
  | .rightParen => ")"
  | .leftBracket => "["
  | .rightBracket => "]"
  | .leftBrace => "\x7b"
  | .rightBrace => "\x7d"
  | .comma => ","
  | .semicolon => ";"
  | .colon => ":"
  | .dot => "."
  | .intLiteral => "integer literal"
  | .floatLiteral => "float literal"
  | .stringLiteral => "string literal"
  | .charLiteral => "character literal"
  | .identifier => "identifier"
  | .comment => "comment"
  | .directive => "preprocessor directive"
  | .endOfFile => "end of file"
  | .invalid => "invalid token"

/-- The kind of an at sign with a word behind it. -/
def ofAtWord (word : String) : TokenKind :=
  match word with
  | "interface" => .atInterface
  | "implementation" => .atImplementation
  | "protocol" => .atProtocol
  | "end" => .atEnd
  | "property" => .atProperty
  | "optional" => .atOptional
  | "required" => .atRequired
  | "class" => .atClass
  | _ => .atOther

end TokenKind

end HeaderBridge
