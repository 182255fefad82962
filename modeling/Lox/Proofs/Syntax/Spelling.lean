import Mathlib.Data.List.Forall2
import Lox.Parser.Expression

/-!
How expressions are written.

`Expr.spelling` is the row of tokens that a tree stands for, from left to right. A tree does not
keep everything of its tokens: it has the line of some and not of others. So a spelling is a row of
marks, each with the symbol of a token and perhaps its line, and `Spells` says that a row of tokens
fits it. `Expr.flatten` forgets the lines altogether.

A row of symbols is not a tree yet, since operands may group in several ways. `Expr.WellLevelled`
picks the trees that the ladder of levels allows: each operand is tight enough for the side it
stands on.
-/

namespace Lox

/-! ### Symbols and marks -/

/-- A token without its line. Only identifiers, numbers and strings have more than a kind. -/
inductive Symbol where
  | fixed (kind : TokenKind)
  | name (text : String)
  | number (value : Float)
  | text (value : String)

/-- The kind of the tokens with a symbol. -/
def Symbol.kind : Symbol → TokenKind
  | .fixed kind => kind
  | .name _ => .identifier
  | .number _ => .number
  | .text _ => .string

/-- What is left of a token without its line. -/
def Token.symbol (token : Token) : Symbol :=
  match token.kind, token.literal with
  | .identifier, _ => .name token.lexeme
  | .number, some (.number value) => .number value
  | .string, some (.text value) => .text value
  | kind, _ => .fixed kind

@[simp] theorem Token.symbol_kind (token : Token) : token.symbol.kind = token.kind := by
  unfold Token.symbol
  split <;> simp_all [Symbol.kind]

/-- Numbers and strings carry a literal of their own kind, as scanned ones do. -/
def Token.Carries (token : Token) : Prop :=
  (token.kind = .number → ∃ value, token.literal = some (.number value)) ∧
    (token.kind = .string → ∃ value, token.literal = some (.text value))

/-- What a tree says of one of its tokens: the symbol, and the line if the tree keeps it. -/
structure Mark where
  symbol : Symbol
  line : Option Nat

namespace Mark

/-- A token of a kind on any line. -/
def fixed (kind : TokenKind) : Mark := ⟨.fixed kind, none⟩

/-- A token of a kind on a line. -/
def on (kind : TokenKind) (line : Nat) : Mark := ⟨.fixed kind, some line⟩

/-- The identifier that a name was. -/
def ofName (name : Name) : Mark := ⟨.name name.text, some name.line⟩

/-- The kind of the token. -/
def kind (mark : Mark) : TokenKind := mark.symbol.kind

/-- Whether a token is what a mark says. -/
def Fits (mark : Mark) (token : Token) : Prop :=
  token.symbol = mark.symbol ∧ ∀ line, mark.line = some line → token.line = line

@[simp] theorem kind_fixed (kind : TokenKind) : (fixed kind).kind = kind := rfl

@[simp] theorem kind_on (kind : TokenKind) (line : Nat) : (on kind line).kind = kind := rfl

@[simp] theorem kind_ofName (name : Name) : (ofName name).kind = .identifier := rfl

variable {mark : Mark} {token : Token}

theorem Fits.kind (fits : mark.Fits token) : token.kind = mark.kind := by
  rw [← token.symbol_kind, fits.1, Mark.kind]

theorem fits_ofName {name : Name} :
    (ofName name).Fits token ↔ token.kind = .identifier ∧ Parser.nameOf token = name := by
  constructor
  · intro fits
    have kind := fits.kind
    rw [kind_ofName] at kind
    obtain ⟨symbol, line⟩ := fits
    simp only [Token.symbol, kind, ofName, Symbol.name.injEq] at symbol
    exact ⟨kind, by rw [Parser.nameOf, symbol, line name.line rfl]⟩
  · rintro ⟨kind, rfl⟩
    refine ⟨by simp [Token.symbol, kind, ofName, Parser.nameOf], ?_⟩
    rintro line ⟨⟩
    rfl

/-- Kinds of which all tokens have the same symbol. -/
theorem fits_fixed {kind : TokenKind} (same : token.kind = kind) (plain : kind.hasFixedText) :
    (fixed kind).Fits token := by
  refine ⟨?_, by rintro _ ⟨⟩⟩
  subst same
  unfold Token.symbol
  split <;> simp_all [TokenKind.hasFixedText, fixed]

theorem fits_on {kind : TokenKind} (same : token.kind = kind) (plain : kind.hasFixedText) :
    (on kind token.line).Fits token := by
  refine ⟨(fits_fixed same plain).1, ?_⟩
  rintro line ⟨⟩
  rfl

theorem Fits.line {kind : TokenKind} {line : Nat} (fits : (on kind line).Fits token) :
    token.line = line :=
  fits.2 line rfl

end Mark

/-- A row of tokens is what a row of marks says. -/
abbrev Spells (marks : List Mark) (tokens : List Token) : Prop :=
  List.Forall₂ Mark.Fits marks tokens

namespace Spells

variable {marks more : List Mark} {mark : Mark} {tokens others : List Token}

theorem append (left : Spells marks tokens) (right : Spells more others) :
    Spells (marks ++ more) (tokens ++ others) :=
  List.rel_append left right

theorem singleton {token : Token} (fits : mark.Fits token) : Spells [mark] [token] :=
  .cons fits .nil

theorem append_iff : Spells (marks ++ more) tokens ↔
    ∃ left right, tokens = left ++ right ∧ Spells marks left ∧ Spells more right := by
  constructor
  · intro spells
    exact ⟨_, _, (List.take_append_drop marks.length tokens).symm,
      by simpa using List.forall₂_take marks.length spells,
      by simpa using List.forall₂_drop marks.length spells⟩
  · rintro ⟨left, right, rfl, spellsLeft, spellsRight⟩
    exact spellsLeft.append spellsRight

theorem cons_iff : Spells (mark :: marks) tokens ↔
    ∃ token rest, tokens = token :: rest ∧ mark.Fits token ∧ Spells marks rest := by
  constructor
  · rintro (_ | ⟨fits, spells⟩)
    exact ⟨_, _, rfl, fits, spells⟩
  · rintro ⟨token, rest, rfl, fits, spells⟩
    exact .cons fits spells

theorem symbols (spells : Spells marks tokens) :
    tokens.map Token.symbol = marks.map Mark.symbol := by
  induction spells with
  | nil => rfl
  | cons fits _ ih => rw [List.map_cons, List.map_cons, ih, fits.1]

/-- Tokens have the kinds that the marks say. -/
theorem kinds (spells : Spells marks tokens) (holds : TokenKind → Prop)
    (all : ∀ mark ∈ marks, holds mark.kind) : ∀ token ∈ tokens, holds token.kind := by
  induction spells with
  | nil => simp
  | cons fits _ ih =>
      intro token member
      rcases List.mem_cons.mp member with rfl | member
      · exact fits.kind ▸ all _ List.mem_cons_self
      · exact ih (fun mark inside => all mark (List.mem_cons_of_mem _ inside)) token member

end Spells

/-- A row of tokens is what a row of marks says, provided that numbers and strings among them carry
a literal of their own kind: others have no spelling of their own. -/
def Written (marks : List Mark) (tokens : List Token) : Prop :=
  (∀ token ∈ tokens, token.Carries) → Spells marks tokens

namespace Written

variable {marks more : List Mark} {mark : Mark} {tokens others : List Token} {token : Token}

theorem nil : Written [] [] :=
  fun _ => .nil

theorem cons (fits : mark.Fits token) (rest : Written marks tokens) :
    Written (mark :: marks) (token :: tokens) :=
  fun carries => .cons fits (rest fun other member => carries other (List.mem_cons_of_mem _ member))

theorem singleton (fits : mark.Fits token) : Written [mark] [token] :=
  cons fits nil

theorem append (left : Written marks tokens) (right : Written more others) :
    Written (marks ++ more) (tokens ++ others) := fun carries =>
  (left fun token member => carries token (List.mem_append_left _ member)).append
    (right fun token member => carries token (List.mem_append_right _ member))

end Written

/-- A row of spellings with commas between them. -/
def separated : List (List Mark) → List Mark
  | [] => []
  | [first] => first
  | first :: second :: rest => first ++ .fixed .comma :: separated (second :: rest)

theorem mem_separated {mark : Mark} {rows : List (List Mark)} (member : mark ∈ separated rows) :
    mark = .fixed .comma ∨ ∃ row ∈ rows, mark ∈ row := by
  induction rows using separated.induct with
  | case1 => simp [separated] at member
  | case2 first => exact .inr ⟨first, List.mem_cons_self, member⟩
  | case3 first second rest ih =>
      rw [separated, List.mem_append, List.mem_cons] at member
      rcases member with member | member | member
      · exact .inr ⟨first, List.mem_cons_self, member⟩
      · exact .inl member
      · rcases ih member with comma | ⟨row, inside, member⟩
        · exact .inl comma
        · exact .inr ⟨row, List.mem_cons_of_mem _ inside, member⟩

/-! ### Operators -/

/-- The level of an operator. -/
def InfixOp.level : InfixOp → Level
  | .logical .or => .or
  | .logical .and => .and
  | .binary .equal | .binary .notEqual => .equality
  | .binary .greater | .binary .greaterEqual | .binary .less | .binary .lessEqual => .comparison
  | .binary .add | .binary .subtract => .sum
  | .binary .divide | .binary .multiply => .product

/-- The kind of token that an operator is. -/
def InfixOp.kind : InfixOp → TokenKind
  | .logical .or => .kwOr
  | .logical .and => .kwAnd
  | .binary .equal => .equalEqual
  | .binary .notEqual => .bangEqual
  | .binary .greater => .greater
  | .binary .greaterEqual => .greaterEqual
  | .binary .less => .less
  | .binary .lessEqual => .lessEqual
  | .binary .add => .plus
  | .binary .subtract => .minus
  | .binary .divide => .slash
  | .binary .multiply => .star

/-- The kind of token that a prefix operator is. -/
def UnaryOp.kind : UnaryOp → TokenKind
  | .not => .bang
  | .negate => .minus

theorem Level.operator?_eq_some {level : Level} {kind : TokenKind} {op : InfixOp} :
    level.operator? kind = some op ↔ op.level = level ∧ op.kind = kind := by
  constructor
  · intro found
    cases level <;> cases kind <;> cases found <;> exact ⟨rfl, rfl⟩
  · rintro ⟨rfl, rfl⟩
    rcases op with op | op <;> cases op <;> rfl

theorem prefixOp?_eq_some {kind : TokenKind} {op : UnaryOp} :
    prefixOp? kind = some op ↔ op.kind = kind := by
  constructor
  · intro found
    cases kind <;> cases found <;> rfl
  · rintro rfl
    cases op <;> rfl

theorem InfixOp.hasFixedText (op : InfixOp) : op.kind.hasFixedText := by
  rcases op with op | op <;> cases op <;> rfl

theorem UnaryOp.hasFixedText (op : UnaryOp) : op.kind.hasFixedText := by
  cases op <;> rfl

/-- What a tree says of an operator's token: logical operators have no line. -/
def InfixOp.mark (op : InfixOp) (line : Nat) : Mark :=
  match op with
  | .logical _ => .fixed op.kind
  | .binary _ => .on op.kind line

@[simp] theorem InfixOp.kind_mark (op : InfixOp) (line : Nat) : (op.mark line).kind = op.kind := by
  cases op <;> rfl

theorem InfixOp.fits_mark {op : InfixOp} {token : Token} (same : token.kind = op.kind) :
    (op.mark token.line).Fits token := by
  cases op with
  | logical op => exact Mark.fits_fixed same (InfixOp.hasFixedText _)
  | binary op => exact Mark.fits_on same (InfixOp.hasFixedText _)

/-- The line of an operator's token is that of the tree, as far as the tree has one. -/
theorem InfixOp.combine_line {op : InfixOp} {line : Nat} {token : Token}
    (fits : (op.mark line).Fits token) (left right : Expr) :
    op.combine token.line left right = op.combine line left right := by
  cases op with
  | logical op => rfl
  | binary op => rw [fits.line]

/-! ### Expressions -/

/-- The symbol of a literal. -/
def Literal.symbol : Literal → Symbol
  | .nil => .fixed .kwNil
  | .bool true => .fixed .kwTrue
  | .bool false => .fixed .kwFalse
  | .number value => .number value
  | .text value => .text value

mutual

/-- The tokens of an expression, from left to right. -/
def Expr.spelling : Expr → List Mark
  | .literal value => [⟨value.symbol, none⟩]
  | .variable name => [.ofName name]
  | .group inner => .fixed .leftParen :: (inner.spelling ++ [.fixed .rightParen])
  | .unary op line operand => .on op.kind line :: operand.spelling
  | .binary op line left right =>
    left.spelling ++ (InfixOp.binary op).mark line :: right.spelling
  | .logical op left right => left.spelling ++ (InfixOp.logical op).mark 0 :: right.spelling
  | .assign name value => .ofName name :: .fixed .equal :: value.spelling
  | .call callee arguments closeLine =>
    callee.spelling ++ .fixed .leftParen ::
      (separated (Expr.spellings arguments) ++ [.on .rightParen closeLine])

/-- The tokens of each of a row of expressions. -/
def Expr.spellings : List Expr → List (List Mark)
  | [] => []
  | expr :: rest => expr.spelling :: Expr.spellings rest

end

/-- The tokens of an expression without their lines. -/
def Expr.flatten (expr : Expr) : List Symbol :=
  expr.spelling.map Mark.symbol

/-- The place of a level on the ladder. -/
def Level.rank : Level → Nat
  | .or => 1
  | .and => 2
  | .equality => 3
  | .comparison => 4
  | .sum => 5
  | .product => 6

/-- The place of an expression on the ladder: assignments are loosest, then come the levels, prefix
operators, calls, and what is an expression by itself. -/
def Expr.rank : Expr → Nat
  | .assign _ _ => 0
  | .logical op _ _ => (InfixOp.logical op).level.rank
  | .binary op _ _ _ => (InfixOp.binary op).level.rank
  | .unary _ _ _ => 7
  | .call _ _ _ => 8
  | .literal _ | .variable _ | .group _ => 9

mutual

/-- The ladder allows a tree: operators group to the left, prefix operators stand in front of prefix
operators and calls, only calls and what is tighter is called, with no more arguments than a call
may have, and everything may stand on the right of an assignment, as an argument and in
parentheses. -/
def Expr.WellLevelled : Expr → Prop
  | .literal _ | .variable _ => True
  | .group inner => inner.WellLevelled
  | .unary _ _ operand => 7 ≤ operand.rank ∧ operand.WellLevelled
  | .binary op _ left right =>
    ((InfixOp.binary op).level.rank ≤ left.rank ∧ left.WellLevelled) ∧
      ((InfixOp.binary op).level.rank < right.rank ∧ right.WellLevelled)
  | .logical op left right =>
    ((InfixOp.logical op).level.rank ≤ left.rank ∧ left.WellLevelled) ∧
      ((InfixOp.logical op).level.rank < right.rank ∧ right.WellLevelled)
  | .assign _ value => value.WellLevelled
  | .call callee arguments _ =>
    (8 ≤ callee.rank ∧ callee.WellLevelled) ∧
      arguments.length ≤ argumentLimit ∧ Expr.AllWellLevelled arguments

/-- The ladder allows each of a row of trees. -/
def Expr.AllWellLevelled : List Expr → Prop
  | [] => True
  | expr :: rest => expr.WellLevelled ∧ Expr.AllWellLevelled rest

end

mutual

/-- The tree with all lines set to the same one. -/
def Expr.unlined : Expr → Expr
  | .literal value => .literal value
  | .variable name => .variable ⟨name.text, 0⟩
  | .group inner => .group inner.unlined
  | .unary op _ operand => .unary op 0 operand.unlined
  | .binary op _ left right => .binary op 0 left.unlined right.unlined
  | .logical op left right => .logical op left.unlined right.unlined
  | .assign name value => .assign ⟨name.text, 0⟩ value.unlined
  | .call callee arguments _ => .call callee.unlined (Expr.allUnlined arguments) 0

/-- Each of a row of trees with all lines set to the same one. -/
def Expr.allUnlined : List Expr → List Expr
  | [] => []
  | expr :: rest => expr.unlined :: Expr.allUnlined rest

end

namespace Expr

/-- Induction over expressions that treats all operators with two operands as one case, and gives
the hypothesis for every argument of a call. -/
@[elab_as_elim, induction_eliminator]
theorem induct {motive : Expr → Prop} (literal : ∀ value, motive (.literal value))
    (named : ∀ name, motive (.variable name))
    (group : ∀ inner, motive inner → motive (.group inner))
    (unary : ∀ op line operand, motive operand → motive (.unary op line operand))
    (operation : ∀ (op : InfixOp) line left right,
      motive left → motive right → motive (op.combine line left right))
    (assign : ∀ name value, motive value → motive (.assign name value))
    (call : ∀ callee arguments closeLine, motive callee →
      (∀ argument ∈ arguments, motive argument) → motive (.call callee arguments closeLine))
    (expr : Expr) : motive expr :=
  @Expr.rec motive (fun exprs => ∀ expr ∈ exprs, motive expr) literal unary
    (fun op line left right => operation (.binary op) line left right)
    (fun op left right => operation (.logical op) 0 left right) group named assign call
    (fun _ member => absurd member List.not_mem_nil)
    (fun _ _ first rest => List.forall_mem_cons.mpr ⟨first, rest⟩) expr

variable (op : InfixOp) (line : Nat) (left right : Expr)

@[simp] theorem spelling_combine : (op.combine line left right).spelling =
    left.spelling ++ op.mark line :: right.spelling := by
  cases op <;> simp [InfixOp.combine, spelling, InfixOp.mark]

@[simp] theorem rank_combine : (op.combine line left right).rank = op.level.rank := by
  cases op <;> rfl

@[simp] theorem wellLevelled_combine : (op.combine line left right).WellLevelled ↔
    (op.level.rank ≤ left.rank ∧ left.WellLevelled) ∧
      (op.level.rank < right.rank ∧ right.WellLevelled) := by
  cases op <;> simp [InfixOp.combine, WellLevelled]

@[simp] theorem unlined_combine : (op.combine line left right).unlined =
    op.combine 0 left.unlined right.unlined := by
  cases op <;> simp [InfixOp.combine, unlined]

@[simp] theorem spellings_eq (exprs : List Expr) : spellings exprs = exprs.map spelling := by
  induction exprs with
  | nil => rfl
  | cons expr rest ih => rw [spellings, ih, List.map_cons]

@[simp] theorem allWellLevelled_iff (exprs : List Expr) :
    AllWellLevelled exprs ↔ ∀ expr ∈ exprs, expr.WellLevelled := by
  induction exprs with
  | nil => simp [AllWellLevelled]
  | cons expr rest ih => simp [AllWellLevelled, ih]

@[simp] theorem allUnlined_eq (exprs : List Expr) : allUnlined exprs = exprs.map unlined := by
  induction exprs with
  | nil => rfl
  | cons expr rest ih => rw [allUnlined, ih, List.map_cons]

end Expr

/-- The kinds of token that an expression may begin with. -/
def startsExpression : List TokenKind :=
  [.leftParen, .bang, .minus, .identifier, .number, .string, .kwFalse, .kwTrue, .kwNil]

/-- The kinds of token with which an expression goes on. -/
def continuesExpression : List TokenKind :=
  [.equal, .leftParen, .kwOr, .kwAnd, .bangEqual, .equalEqual, .greater, .greaterEqual, .less,
    .lessEqual, .minus, .plus, .slash, .star]

namespace Expr

/-- No expression is written without tokens, and its first one tells that an expression begins. -/
theorem spelling_starts (expr : Expr) :
    ∃ mark rest, expr.spelling = mark :: rest ∧ mark.kind ∈ startsExpression := by
  induction expr with
  | literal value =>
      refine ⟨_, _, rfl, ?_⟩
      rcases value with _ | ⟨_ | _⟩ | _ | _ <;>
        simp [Mark.kind, Literal.symbol, Symbol.kind, startsExpression]
  | named name => exact ⟨_, _, rfl, by simp [startsExpression]⟩
  | group inner _ => exact ⟨_, _, rfl, by simp [startsExpression]⟩
  | unary op line operand _ =>
      refine ⟨_, _, rfl, ?_⟩
      cases op <;> simp [UnaryOp.kind, startsExpression]
  | operation op line left right first _ =>
      obtain ⟨mark, rest, spelling, starts⟩ := first
      exact ⟨mark, _, by rw [spelling_combine, spelling, List.cons_append], starts⟩
  | assign name value _ => exact ⟨_, _, rfl, by simp [startsExpression]⟩
  | call callee arguments closeLine first _ =>
      obtain ⟨mark, rest, spelling, starts⟩ := first
      exact ⟨mark, _, by rw [Expr.spelling, spelling, List.cons_append], starts⟩

/-- The end of the input is no part of an expression. -/
theorem spelling_inside (expr : Expr) : ∀ mark ∈ expr.spelling, mark.kind ≠ .endOfInput := by
  induction expr with
  | literal value =>
      intro mark member
      rw [List.mem_singleton.mp member]
      rcases value with _ | ⟨_ | _⟩ | _ | _ <;> rintro ⟨⟩
  | named name => simp [spelling]
  | group inner ih =>
      intro mark member
      simp only [spelling, List.mem_cons, List.mem_append, List.not_mem_nil, or_false] at member
      rcases member with rfl | member | rfl
      · simp
      · exact ih mark member
      · simp
  | unary op line operand ih =>
      intro mark member
      rcases List.mem_cons.mp member with rfl | member
      · cases op <;> rintro ⟨⟩
      · exact ih mark member
  | operation op line left right first second =>
      intro mark member
      simp only [spelling_combine, List.mem_append, List.mem_cons] at member
      rcases member with member | rfl | member
      · exact first mark member
      · rw [InfixOp.kind_mark]
        rcases op with op | op <;> cases op <;> rintro ⟨⟩
      · exact second mark member
  | assign name value ih =>
      intro mark member
      simp only [spelling, List.mem_cons] at member
      rcases member with rfl | rfl | member
      · simp
      · simp
      · exact ih mark member
  | call callee arguments closeLine first all =>
      intro mark member
      simp only [spelling, spellings_eq, List.mem_cons, List.mem_append, List.not_mem_nil,
        or_false] at member
      rcases member with member | rfl | member | rfl
      · exact first mark member
      · simp
      · rcases mem_separated member with rfl | ⟨row, inside, member⟩
        · simp
        · obtain ⟨argument, given, rfl⟩ := List.mem_map.mp inside
          exact all argument given mark member
      · simp

/-! ### Lines -/

@[simp] theorem rank_unlined (expr : Expr) : expr.unlined.rank = expr.rank := by
  cases expr <;> simp [unlined, rank]

theorem wellLevelled_unlined (expr : Expr) : expr.unlined.WellLevelled ↔ expr.WellLevelled := by
  induction expr with
  | literal value => rfl
  | named name => rfl
  | group inner ih => exact ih
  | unary op line operand ih => simp only [unlined, WellLevelled, rank_unlined, ih]
  | operation op line left right first second =>
      simp only [unlined_combine, wellLevelled_combine, rank_unlined, first, second]
  | assign name value ih => exact ih
  | call callee arguments closeLine first all =>
      simp only [unlined, WellLevelled, rank_unlined, first, allUnlined_eq, allWellLevelled_iff,
        List.length_map, List.forall_mem_map]
      exact and_congr_right fun _ => and_congr_right fun _ =>
        forall₂_congr fun argument given => all argument given

/-- A property of expressions that lines do not matter to: tokens with the symbols of the expression
are the tokens of one that differs from it in lines only. -/
def Relines (expr : Expr) : Prop :=
  ∀ tokens : List Token, tokens.map Token.symbol = expr.flatten →
    ∃ other : Expr, other.unlined = expr.unlined ∧ Spells other.spelling tokens

theorem relines_separated {arguments : List Expr} (all : ∀ argument ∈ arguments, Relines argument)
    {tokens : List Token}
    (symbols : tokens.map Token.symbol = (separated (arguments.map spelling)).map Mark.symbol) :
    ∃ others : List Expr, others.map unlined = arguments.map unlined ∧
      Spells (separated (others.map spelling)) tokens := by
  induction arguments generalizing tokens with
  | nil =>
      rw [List.map_eq_nil_iff.mp symbols]
      exact ⟨[], rfl, .nil⟩
  | cons first rest ih =>
      have reline := all first List.mem_cons_self
      cases rest with
      | nil =>
          obtain ⟨other, same, spells⟩ := reline tokens symbols
          exact ⟨[other], by simp [same], spells⟩
      | cons second rest =>
          simp only [List.map_cons, separated, List.map_append] at symbols
          obtain ⟨left, more, rfl, leftSymbols, moreSymbols⟩ := List.map_eq_append_iff.mp symbols
          obtain ⟨comma, right, rfl, commaSymbol, rightSymbols⟩ :=
            List.map_eq_cons_iff.mp moreSymbols
          obtain ⟨other, same, spells⟩ := reline left leftSymbols
          obtain ⟨others, sames, spellsAll⟩ :=
            ih (fun argument given => all argument (List.mem_cons_of_mem _ given)) rightSymbols
          cases others with
          | nil => simp at sames
          | cons next others =>
              exact ⟨other :: next :: others, by rw [List.map_cons, same, sames]; rfl,
                spells.append (.cons ⟨commaSymbol, by rintro _ ⟨⟩⟩ spellsAll)⟩

theorem relines (expr : Expr) : Relines expr := by
  induction expr with
  | literal value =>
      intro tokens symbols
      obtain ⟨token, rest, rfl, symbol, none⟩ := List.map_eq_cons_iff.mp symbols
      rw [List.map_eq_nil_iff.mp none]
      exact ⟨.literal value, rfl, .singleton ⟨symbol, by simp⟩⟩
  | named name =>
      intro tokens symbols
      obtain ⟨token, rest, rfl, symbol, none⟩ := List.map_eq_cons_iff.mp symbols
      rw [List.map_eq_nil_iff.mp none]
      exact ⟨.variable ⟨name.text, token.line⟩, rfl, .singleton ⟨symbol, by rintro line ⟨⟩; rfl⟩⟩
  | group inner ih =>
      intro tokens symbols
      simp only [flatten, spelling, List.map_cons, List.map_append, List.map_nil] at symbols
      obtain ⟨opens, more, rfl, openSymbol, moreSymbols⟩ := List.map_eq_cons_iff.mp symbols
      obtain ⟨inside, last, rfl, insideSymbols, lastSymbols⟩ :=
        List.map_eq_append_iff.mp moreSymbols
      obtain ⟨closes, rest, rfl, closeSymbol, none⟩ := List.map_eq_cons_iff.mp lastSymbols
      rw [List.map_eq_nil_iff.mp none]
      obtain ⟨other, same, spells⟩ := ih inside insideSymbols
      exact ⟨.group other, by rw [unlined, unlined, same],
        .cons ⟨openSymbol, by rintro _ ⟨⟩⟩
          (spells.append (.singleton ⟨closeSymbol, by rintro _ ⟨⟩⟩))⟩
  | unary op line operand ih =>
      intro tokens symbols
      obtain ⟨token, rest, rfl, symbol, restSymbols⟩ := List.map_eq_cons_iff.mp symbols
      obtain ⟨other, same, spells⟩ := ih rest restSymbols
      exact ⟨.unary op token.line other, by rw [unlined, unlined, same],
        .cons ⟨symbol, by rintro line ⟨⟩; rfl⟩ spells⟩
  | operation op line left right first second =>
      intro tokens symbols
      simp only [flatten, spelling_combine, List.map_cons, List.map_append] at symbols
      obtain ⟨before, more, rfl, beforeSymbols, moreSymbols⟩ := List.map_eq_append_iff.mp symbols
      obtain ⟨token, after, rfl, symbol, afterSymbols⟩ := List.map_eq_cons_iff.mp moreSymbols
      obtain ⟨otherLeft, sameLeft, spellsLeft⟩ := first before beforeSymbols
      obtain ⟨otherRight, sameRight, spellsRight⟩ := second after afterSymbols
      have kind : token.kind = op.kind := by
        rw [← token.symbol_kind, symbol, ← InfixOp.kind_mark op line, Mark.kind]
      refine ⟨op.combine token.line otherLeft otherRight, ?_, ?_⟩
      · simp only [unlined_combine, sameLeft, sameRight]
      · rw [spelling_combine]
        exact spellsLeft.append (.cons (InfixOp.fits_mark kind) spellsRight)
  | assign name value ih =>
      intro tokens symbols
      obtain ⟨token, more, rfl, symbol, moreSymbols⟩ := List.map_eq_cons_iff.mp symbols
      obtain ⟨equals, rest, rfl, equalSymbol, restSymbols⟩ := List.map_eq_cons_iff.mp moreSymbols
      obtain ⟨other, same, spells⟩ := ih rest restSymbols
      exact ⟨.assign ⟨name.text, token.line⟩ other, by rw [unlined, unlined, same],
        .cons ⟨symbol, by rintro line ⟨⟩; rfl⟩ (.cons ⟨equalSymbol, by rintro _ ⟨⟩⟩ spells)⟩
  | call callee arguments closeLine first all =>
      intro tokens symbols
      simp only [flatten, spelling, spellings_eq, List.map_cons, List.map_append, List.map_nil]
        at symbols
      obtain ⟨before, more, rfl, beforeSymbols, moreSymbols⟩ := List.map_eq_append_iff.mp symbols
      obtain ⟨opens, more, rfl, openSymbol, moreSymbols⟩ := List.map_eq_cons_iff.mp moreSymbols
      obtain ⟨inside, last, rfl, insideSymbols, lastSymbols⟩ :=
        List.map_eq_append_iff.mp moreSymbols
      obtain ⟨closes, rest, rfl, closeSymbol, none⟩ := List.map_eq_cons_iff.mp lastSymbols
      rw [List.map_eq_nil_iff.mp none]
      obtain ⟨other, same, spells⟩ := first before beforeSymbols
      obtain ⟨others, sames, spellsAll⟩ := relines_separated all insideSymbols
      refine ⟨.call other others closes.line, ?_, ?_⟩
      · simp only [unlined, same, allUnlined_eq, sames]
      · rw [spelling, spellings_eq]
        exact spells.append (.cons ⟨openSymbol, by rintro _ ⟨⟩⟩
          (spellsAll.append (.singleton ⟨closeSymbol, by rintro line ⟨⟩; rfl⟩)))

end Expr

end Lox
