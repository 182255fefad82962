import Lox.Proofs.Interpreter.Escapes
import Lox.Proofs.Interpreter.Raising
import Lox.Proofs.Parser.Shaping
import Lox.Proofs.Session.Layout
import Lox.Proofs.Token.Lines
import Lox.Proofs.Token.Tiling

/-!
Where errors point.

A run-time error names a line and nothing else, so the line has to be that of the token that is to
blame: the name, the operator, the parenthesis that closes the call, or the keyword. `Blames` says
so for every sort of error in terms of the tokens of the text. An error is raised by a part of the
program, the parts are written in the tokens, and a tree has the lines of its tokens, so the error
of a run blames a token (`blames_of_run`).

The lines of all diagnostics, those of mistakes in the source included, are lines of the text.
-/

namespace Lox

/-- A token that closes a call: the parenthesis at the end of the tokens of a call that is a part of
the program. -/
def ClosesCall (tokens : List Token) (program : List Stmt) (close : Token) : Prop :=
  close.kind = .rightParen ∧ ∃ callee arguments front,
    (Expr.call callee arguments close.line).PartOf program ∧
    front ++ [close] <:+: tokens ∧
      Spells (Expr.call callee arguments close.line).spelling (front ++ [close])

/-- A token that is an operator, as opposed to punctuation that is written like one. -/
def Token.IsOperator (token : Token) : Prop :=
  (∃ op : UnaryOp, token.kind = op.kind) ∨ ∃ op : BinaryOp, token.kind = (InfixOp.binary op).kind

/-- The error is that of a token of the text, and is on its line. -/
inductive RuntimeError.Blames (tokens : List Token) (program : List Stmt) :
    RuntimeError → Token → Prop
  | undefinedVariable {token : Token} (kind : token.kind = .identifier) :
      Blames tokens program ⟨.undefinedVariable token.lexeme, token.line⟩ token
  | uninitializedVariable {token : Token} (kind : token.kind = .identifier) :
      Blames tokens program ⟨.uninitializedVariable token.lexeme, token.line⟩ token
  | typeMismatch {token : Token} {subject expected got : String} (operator : token.IsOperator) :
      Blames tokens program ⟨.typeMismatch subject token.lexeme expected got, token.line⟩ token
  | divideByZero {token : Token} (kind : token.kind = .slash) (lexeme : token.lexeme = "/") :
      Blames tokens program ⟨.divideByZero, token.line⟩ token
  | notCallable {token : Token} {typeName : String} (closes : ClosesCall tokens program token) :
      Blames tokens program ⟨.notCallable typeName, token.line⟩ token
  | arityMismatch {token : Token} {expected got : Nat} (closes : ClosesCall tokens program token) :
      Blames tokens program ⟨.arityMismatch expected got, token.line⟩ token
  | stackOverflow {token : Token} {limit : Nat} (closes : ClosesCall tokens program token) :
      Blames tokens program ⟨.stackOverflow limit, token.line⟩ token
  | escapedSignal {token : Token} {label : Option String}
      (kind : token.kind = .kwBreak ∨ token.kind = .kwContinue) :
      Blames tokens program (Signal.escape ⟨label, token.line⟩ token.lexeme) token

/-! ### Texts of tokens -/

section Scanned

variable {source : String} {token : Token} (member : token ∈ (scan source).tokens)
include member

theorem lexeme_of_operator {text : String} {kind : TokenKind}
    (listed : (text.toList, kind) ∈ Piece.operators) (same : token.kind = kind) :
    token.lexeme = text := by
  have inner : token.kind ≠ .endOfInput := same ▸ (Piece.operators_plain _ listed).2.2.1
  have formed := scan_formed member inner
  rw [same] at formed
  exact String.toList_inj.mp (formed.operator_text listed)

theorem lexeme_of_keyword {text : String} {kind : TokenKind}
    (listed : (text, kind) ∈ TokenKind.reserved) (same : token.kind = kind) :
    token.lexeme = text := by
  have keyword : kind.isKeyword := List.any_eq_true.mpr ⟨_, listed, by simp⟩
  have inner : token.kind ≠ .endOfInput := same ▸ (Piece.reserved_plain _ listed).2.2
  have reserved := ((scan_formed member inner).keyword_iff keyword).mp same
  have once : ∀ entry ∈ TokenKind.reserved, ∀ other ∈ TokenKind.reserved,
      entry.2 = other.2 → entry.1 = other.1 := by decide
  rw [String.ofList_toList] at reserved
  exact once _ reserved _ listed rfl

end Scanned

theorem UnaryOp.listed (op : UnaryOp) : (op.symbol.toList, op.kind) ∈ Piece.operators := by
  cases op <;> decide

theorem BinaryOp.listed (op : BinaryOp) :
    (op.symbol.toList, (InfixOp.binary op).kind) ∈ Piece.operators := by
  cases op <;> decide

/-! ### From trees to tokens -/

theorem Spells.find {marks : List Mark} {tokens : List Token} (spells : Spells marks tokens)
    (mark : Mark) (member : mark ∈ marks) : ∃ token ∈ tokens, mark.Fits token := by
  induction spells with
  | nil => cases member
  | cons fits _ ih =>
      rcases List.mem_cons.mp member with rfl | member
      · exact ⟨_, List.mem_cons_self, fits⟩
      · exact (ih member).imp fun token found => found.imp_left (List.mem_cons_of_mem _)

/-- The last token of a call that is a part of the program closes it. -/
theorem closes_of_spells {whole segment : List Token} {program : List Stmt} {callee : Expr}
    {arguments : List Expr} {line : Nat} (part : (Expr.call callee arguments line).PartOf program)
    (stretch : segment <:+: whole)
    (spells : Spells (Expr.call callee arguments line).spelling segment) :
    ∃ close ∈ whole, ClosesCall whole program close ∧ close.line = line := by
  have parts : (Expr.call callee arguments line).spelling =
      (callee.spelling ++ .fixed .leftParen :: separated (Expr.spellings arguments)) ++
      [.on .rightParen line] := by
    simp [Expr.spelling]
  rw [parts] at spells
  obtain ⟨front, last, rfl, -, spellsLast⟩ := Spells.append_iff.mp spells
  obtain ⟨close, rest, rfl, fits, spellsRest⟩ := Spells.cons_iff.mp spellsLast
  cases spellsRest
  have kind : close.kind = .rightParen := fits.kind
  obtain rfl := fits.line
  refine ⟨close, stretch.subset (by simp), ⟨kind, callee, arguments, front, part, stretch, ?_⟩, rfl⟩
  rwa [parts]

section Blaming

variable {source : String} {program : List Stmt} {marks : List Mark} {tokens : List Token}
variable (inside : tokens <:+: (scan source).tokens) (spells : Spells marks tokens)
include inside spells

/-- What an expression raises that is written in the tokens blames one of them. -/
theorem Expr.Raises.blames {expr : Expr} {error : RuntimeError} (raises : expr.Raises error)
    (part : expr.PartOf program) (within : expr.Within marks) :
    ∃ token ∈ (scan source).tokens, error.Blames (scan source).tokens program token := by
  rcases within with ⟨-, written⟩ | rfl
  swap
  · cases raises
  obtain ⟨segment, stretch, spelled⟩ := spells.infix written
  have all := stretch.trans inside
  cases raises with
  | lookup name fault =>
      obtain ⟨token, member, fits⟩ := spelled.find (.ofName name) (by simp [Expr.spelling])
      obtain ⟨kind, rfl⟩ := Mark.fits_ofName.mp fits
      refine ⟨token, all.subset member, ?_⟩
      cases fault with
      | undefined => exact .undefinedVariable kind
      | uninitialized => exact .uninitializedVariable kind
  | assign name value =>
      obtain ⟨token, member, fits⟩ := spelled.find (.ofName name) (by simp [Expr.spelling])
      obtain ⟨kind, rfl⟩ := Mark.fits_ofName.mp fits
      exact ⟨token, all.subset member, .undefinedVariable kind⟩
  | @unary op value fault line operand wrong =>
      obtain ⟨token, member, fits⟩ := spelled.find (.on op.kind line) (by simp [Expr.spelling])
      have kind : token.kind = op.kind := fits.kind
      have lexeme := lexeme_of_operator (all.subset member) op.listed kind
      obtain rfl := fits.line
      obtain ⟨subject, expected, got, rfl⟩ := UnaryOp.fault_of_apply wrong
      exact ⟨token, all.subset member, lexeme ▸ .typeMismatch (.inl ⟨op, kind⟩)⟩
  | @binary op first second fault line left right wrong =>
      obtain ⟨token, member, fits⟩ := spelled.find (.on (InfixOp.binary op).kind line)
        (by simp [Expr.spelling, InfixOp.mark])
      have kind : token.kind = (InfixOp.binary op).kind := fits.kind
      have lexeme := lexeme_of_operator (all.subset member) op.listed kind
      obtain rfl := fits.line
      refine ⟨token, all.subset member, ?_⟩
      rcases BinaryOp.fault_of_apply wrong with ⟨subject, expected, got, rfl⟩ | ⟨rfl, rfl⟩
      · exact lexeme ▸ .typeMismatch (.inr ⟨op, kind⟩)
      · exact .divideByZero kind lexeme
  | notCallable callee arguments closeLine typeName =>
      obtain ⟨close, member, closes, rfl⟩ := closes_of_spells part all spelled
      exact ⟨close, member, .notCallable closes⟩
  | arityMismatch callee arguments closeLine expected got =>
      obtain ⟨close, member, closes, rfl⟩ := closes_of_spells part all spelled
      exact ⟨close, member, .arityMismatch closes⟩
  | stackOverflow callee arguments closeLine limit =>
      obtain ⟨close, member, closes, rfl⟩ := closes_of_spells part all spelled
      exact ⟨close, member, .stackOverflow closes⟩

/-- The keyword of a statement that leaves a loop is to blame for its signal. -/
theorem blames_jump {keyword : TokenKind} {text : String} {line : Nat} {label : Option Name}
    (reserved : (text, keyword) ∈ TokenKind.reserved)
    (leaves : keyword = .kwBreak ∨ keyword = .kwContinue)
    (within : jumpSpelling keyword line label <:+: marks) (target : Option String) :
    ∃ token ∈ (scan source).tokens,
      RuntimeError.Blames (scan source).tokens program
        (Signal.escape ⟨target, line⟩ text) token := by
  obtain ⟨token, member, fits⟩ := spells.find (.on keyword line) (within.subset List.mem_cons_self)
  have kind : token.kind = keyword := fits.kind
  have lexeme := lexeme_of_keyword (inside.subset member) reserved kind
  obtain rfl := fits.line
  exact ⟨token, inside.subset member, lexeme ▸ .escapedSignal (kind ▸ leaves)⟩

theorem Stmt.Raises.blames {stmt : Stmt} {error : RuntimeError} (raises : stmt.Raises error)
    (within : stmt.Within marks) (jumps : ∀ line, error ≠ ⟨.escapedSignal "return", line⟩) :
    ∃ token ∈ (scan source).tokens, error.Blames (scan source).tokens program token := by
  cases raises with
  | breakOut line label => exact blames_jump inside spells (by decide) (.inl rfl) within _
  | continueOn line label => exact blames_jump inside spells (by decide) (.inr rfl) within _
  | returning line value => exact absurd rfl (jumps line)

end Blaming

/-! ### Runs -/

/-- The error that a run ends with blames a token of the text. -/
theorem blames_of_run {source : String} {expressionOnly : Bool}
    (clean : (parse (scan source).tokens expressionOnly).errorCount = 0) {clock : Nat → Float}
    {limit fuel : Nat} {error : RuntimeError} {after : Machine}
    (run : Interpreter.interpret (Interpreter.build [] clock limit).host fuel
      (parse (scan source).tokens expressionOnly).statements
        (Interpreter.build [] clock limit).machine = .failed error after) :
    ∃ token ∈ (scan source).tokens,
      error.Blames (scan source).tokens
        (parse (scan source).tokens expressionOnly).statements token := by
  obtain ⟨tokens, last, found, scanned⟩ := scan_tokens source
  have inside : tokens <:+: (scan source).tokens := ⟨[], [.endOfInput last], by rw [found]; rfl⟩
  have jumps (line : Nat) : error ≠ ⟨.escapedSignal "return", line⟩ := by
    rintro rfl
    exact absurd
      (Interpreter.escape_of_interpret ⟨_, _, scan_ended source, clean, rfl⟩ run) (by decide)
  obtain ⟨program, same⟩ : ∃ program,
      (parse (scan source).tokens expressionOnly).statements = program := ⟨_, rfl⟩
  obtain ⟨marks, spells, written⟩ : ∃ marks,
      Spells marks tokens ∧ ∀ stmt ∈ program, stmt.Written marks := by
    rw [found] at clean same
    exact same ▸ (Parser.accepts_of_parse scanned clean).written
  rw [same] at run ⊢
  rcases Interpreter.interpret_raises (parts_of_program written) run with ⟨expr, part, raises⟩
      | ⟨stmt, part, raises⟩
  · exact raises.blames inside spells part (part _ _ written)
  · exact raises.blames inside spells (part _ _ written) jumps

/-! ### Lines -/

theorem RuntimeError.Blames.line {tokens : List Token} {program : List Stmt} {error : RuntimeError}
    {token : Token} (blames : error.Blames tokens program token) : error.line = token.line := by
  cases blames <;> rfl

/-- What is wrong with a text is so on one of its lines. -/
theorem sourceFaults_lines (source : String) (expressionOnly : Bool) :
    ∀ diagnostic ∈ sourceFaults source expressionOnly, (scan source).HasLine diagnostic.line := by
  obtain ⟨tokensHave, diagnosticsHave⟩ := scan_lines source
  intro diagnostic member
  rcases List.mem_append.mp member with scanned | parsed
  · exact diagnosticsHave diagnostic scanned
  · obtain ⟨error, found, rfl⟩ := List.mem_map.mp parsed
    exact tokensHave _ ((Parser.parse_shaped (scan_ended source) expressionOnly).2 error found)

/-- What is reported of a run is in its place: a run-time error comes last and blames a token of the
text, and all diagnostics are on lines of the text. -/
structure Placed (source : String) (status : Status) (events : List Event) : Prop where
  blames : status = .runtimeError → ∃ (texts : List String) (error : RuntimeError),
    events = texts.map .printed ++ [.reported error.toDiagnostic] ∧ ∃ token ∈ (scan source).tokens,
      error.Blames (scan source).tokens (parse (scan source).tokens false).statements token
  lines : ∀ diagnostic, .reported diagnostic ∈ events → (scan source).HasLine diagnostic.line

theorem placed_faults (source : String) :
    Placed source .sourceError ((sourceFaults source false).map .reported) := by
  refine ⟨by rintro ⟨⟩, fun diagnostic member => ?_⟩
  obtain ⟨given, found, ⟨⟩⟩ := List.mem_map.mp member
  exact sourceFaults_lines source false diagnostic found

theorem placed_ending {fuel : Nat} {clock : Nat → Float} {source : String} {status : Status}
    {events : List Event} (ends : sourceEnding fuel clock source = some (status, events)) :
    Placed source status events := by
  unfold sourceEnding at ends
  split at ends
  · rename_i faultless
    have clean : (parse (scan source).tokens false).errorCount = 0 := by
      rw [← Parser.parse_counts, (List.append_eq_nil_iff.mp faultless).2, List.length_nil]
    obtain ⟨⟨_, after, _⟩, ran, same⟩ := Option.map_eq_some_iff.mp ends
    cases same
    unfold Interpreter.ending at ran
    split at ran <;> cases ran
    · refine ⟨by rintro ⟨⟩, fun diagnostic member => ?_⟩
      obtain ⟨text, -, ⟨⟩⟩ := List.mem_map.mp member
    · rename_i error machine run
      obtain ⟨token, member, blames⟩ := blames_of_run clean run
      refine ⟨fun _ => ⟨_, error, rfl, token, member, blames⟩, fun diagnostic reported => ?_⟩
      rcases List.mem_append.mp reported with printed | reported
      · obtain ⟨text, -, ⟨⟩⟩ := List.mem_map.mp printed
      · obtain rfl : diagnostic = error.toDiagnostic := by simpa using reported
        have line : error.toDiagnostic.line = token.line := blames.line
        exact line ▸ (scan_lines source).1 token member
  · cases ends
    exact placed_faults source

/-- **Errors point at what caused them.** If the run of a text ends with a run-time error, that is
the last thing that the reporter is told of, and the error blames a token of the text: it is on its
line, and what it says is about that token. All that is reported of a run, mistakes in the source
included, is on lines of the text, from the first to that of the end of the input. What a reporter
is told depends on it only in whether it has seen a mistake in a source before. -/
theorem errors_placed (fuel : Nat) (clock : Nat → Float) (source : String) (flagged : Bool) :
    ∃ ending : Option (Status × List Event),
      (∀ status events, ending = some (status, events) → Placed source status events) ∧
      ∀ (ρ : Type) [Reporter ρ] [LawfulReporter ρ] (reporter : ρ),
        Reporter.hadSourceError reporter = flagged →
        runSource fuel clock source reporter =
          ending.map fun (status, events) => (status, Reporter.replay reporter events) := by
  cases flagged with
  | false =>
      exact ⟨sourceEnding fuel clock source, fun _ _ => placed_ending,
        fun ρ _ _ reporter clear => runSource_eq fuel clock source clear⟩
  | true =>
      refine ⟨some (.sourceError, _), ?_, fun ρ _ _ reporter flag =>
        runSource_flagged fuel clock source flag⟩
      rintro _ _ ⟨⟩
      exact placed_faults source

/-- An error on the second of three lines, behind one that is printed. -/
theorem errors_placed_minus :
    let source := "print \"a\";\n-nil;\n"
    ∃ events, Placed source .runtimeError events ∧
      runSource 100 (fun _ => 0) source Transcript.empty =
        some (.runtimeError, Reporter.replay Transcript.empty events) := by
  intro source
  obtain ⟨ending, placed, same⟩ := errors_placed 100 (fun _ => 0) source false
  have ran := same Transcript Transcript.empty rfl
  have status : (runSource 100 (fun _ => 0) source Transcript.empty).map Prod.fst =
      some .runtimeError := by
    decide +kernel
  rw [ran, Option.map_map, Option.map_eq_some_iff] at status
  obtain ⟨⟨_, events⟩, rfl, rfl⟩ := status
  exact ⟨events, placed _ _ rfl, ran⟩

end Lox
