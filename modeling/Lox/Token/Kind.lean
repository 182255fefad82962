/-!
The kinds of token.

Punctuation, operators and keywords always have the same text; identifiers, strings and numbers have
a text of their own. The kinds are closed, and `TokenKind.all` lists them in the order in which they
are declared, which is the order in which sets of kinds are shown.
-/

namespace Lox

/-- The kinds of token. -/
inductive TokenKind where
  | leftParen | rightParen | leftBrace | rightBrace | comma | dot | minus | plus | semicolon | slash
  | star | colon
  | bang | bangEqual | equal | equalEqual | greater | greaterEqual | less | lessEqual
  | identifier | string | number
  | kwAnd | kwBreak | kwClass | kwContinue | kwElse | kwFalse | kwFor | kwFun | kwIf | kwNil | kwOr
  | kwPrint | kwReturn | kwSuper | kwThis | kwTrue | kwVar | kwWhile
  | endOfInput
  deriving DecidableEq, Repr, Inhabited

namespace TokenKind

/-- Every kind, in the order of declaration. -/
def all : List TokenKind := [
  leftParen, rightParen, leftBrace, rightBrace, comma, dot, minus, plus, semicolon, slash, star,
  colon, bang, bangEqual, equal, equalEqual, greater, greaterEqual, less, lessEqual, identifier,
  string, number, kwAnd, kwBreak, kwClass, kwContinue, kwElse, kwFalse, kwFor, kwFun, kwIf, kwNil,
  kwOr, kwPrint, kwReturn, kwSuper, kwThis, kwTrue, kwVar, kwWhile, endOfInput]

/-- The reserved words with their kinds. Words are compared letter for letter, so `While` is not
reserved. -/
def reserved : List (String × TokenKind) := [
  ("and", kwAnd), ("break", kwBreak), ("class", kwClass), ("continue", kwContinue),
  ("else", kwElse), ("false", kwFalse), ("for", kwFor), ("fun", kwFun), ("if", kwIf),
  ("nil", kwNil), ("or", kwOr), ("print", kwPrint), ("return", kwReturn), ("super", kwSuper),
  ("this", kwThis), ("true", kwTrue), ("var", kwVar), ("while", kwWhile)]

/-- The kind of a reserved word. -/
def keyword? (word : String) : Option TokenKind :=
  reserved.lookup word

/-- Whether a kind is that of a reserved word. -/
def isKeyword (kind : TokenKind) : Bool :=
  reserved.any fun entry => entry.2 == kind

/-- Whether all tokens of a kind have the same text. -/
def hasFixedText : TokenKind → Bool
  | identifier | string | number => false
  | _ => true

/-- The words that make up the name of a kind. -/
def nameWords : TokenKind → List String
  | leftParen => ["left", "paren"]
  | rightParen => ["right", "paren"]
  | leftBrace => ["left", "brace"]
  | rightBrace => ["right", "brace"]
  | comma => ["comma"]
  | dot => ["dot"]
  | minus => ["minus"]
  | plus => ["plus"]
  | semicolon => ["semicolon"]
  | slash => ["slash"]
  | star => ["star"]
  | colon => ["colon"]
  | bang => ["bang"]
  | bangEqual => ["bang", "equal"]
  | equal => ["equal"]
  | equalEqual => ["equal", "equal"]
  | greater => ["greater"]
  | greaterEqual => ["greater", "equal"]
  | less => ["less"]
  | lessEqual => ["less", "equal"]
  | identifier => ["identifier"]
  | string => ["string"]
  | number => ["number"]
  | kwAnd => ["and"]
  | kwBreak => ["break"]
  | kwClass => ["class"]
  | kwContinue => ["continue"]
  | kwElse => ["else"]
  | kwFalse => ["false"]
  | kwFor => ["for"]
  | kwFun => ["fun"]
  | kwIf => ["if"]
  | kwNil => ["nil"]
  | kwOr => ["or"]
  | kwPrint => ["print"]
  | kwReturn => ["return"]
  | kwSuper => ["super"]
  | kwThis => ["this"]
  | kwTrue => ["true"]
  | kwVar => ["var"]
  | kwWhile => ["while"]
  | endOfInput => ["eof"]

/-- The name of a kind in the token listing: its words run together, each with a capital. -/
def name (kind : TokenKind) : String :=
  String.join (kind.nameWords.map String.capitalize)

/-- The name of a kind in capitals, its words joined by underscores. -/
def constantName (kind : TokenKind) : String :=
  "_".intercalate (kind.nameWords.map String.toUpper)

end TokenKind

/-- A set of token kinds. -/
structure TokenSet where
  members : List TokenKind
  deriving Repr

namespace TokenSet

/-- The set without members. -/
def empty : TokenSet := ⟨[]⟩

/-- The set with one more member. -/
def insert (set : TokenSet) (kind : TokenKind) : TokenSet := ⟨kind :: set.members⟩

/-- Whether a kind is a member. -/
def contains (set : TokenSet) (kind : TokenKind) : Bool := set.members.contains kind

/-- Whether there is no member. -/
def isEmpty (set : TokenSet) : Bool := set.members.isEmpty

/-- The members in the order of declaration, each once. -/
def toList (set : TokenSet) : List TokenKind := TokenKind.all.filter set.contains

/-- The set with the given members. -/
def ofList (kinds : List TokenKind) : TokenSet := kinds.foldl insert empty

/-- The keywords that begin a statement; recovery from a mistake stops in front of them. -/
def statementStart : TokenSet :=
  ofList [.kwClass, .kwFun, .kwVar, .kwFor, .kwIf, .kwWhile, .kwPrint, .kwReturn]

end TokenSet

end Lox
