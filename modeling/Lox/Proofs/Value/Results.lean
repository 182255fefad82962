import Lox.Interpreter.Machine
import Lox.Value.Operator

/-!
Results of operators and of functions of the host.

Operators make no closures and know nothing of signals, whatever they are applied to. Functions of
the host could do both, so what others do not expect of them is put into words here
(`HostFunction.Plain`). Of a closure operators see the name and which one it is, and nothing else
(`Value.Looks`).
-/

namespace Lox

/-- The result of a computation that makes no closure but those it was given, and does not speak of
signals. -/
def PlainResult (arguments : List Value) : Except Fault Value → Prop
  | .ok value => ∀ closure, value = .function (.closure closure) → value ∈ arguments
  | .error fault => ∀ signal, fault ≠ .escapedSignal signal

/-- A function of the host that gives back no closure but one it was given, and has no fault that is
about signals. -/
def HostFunction.Plain (function : HostFunction) : Prop :=
  ∀ result, function.action = .compute result →
    ∀ arguments, PlainResult arguments (result arguments)

theorem UnaryOp.apply_plain (op : UnaryOp) (operand : Value) (arguments : List Value) :
    PlainResult arguments (op.apply operand) := by
  cases op <;> cases operand <;> rintro _ ⟨⟩

namespace BinaryOp

theorem onNumbers_plain (op : BinaryOp) (x y : Float) (arguments : List Value) :
    PlainResult arguments (op.onNumbers x y) := by
  cases op
  case divide =>
    rw [onNumbers]
    split <;> rintro _ ⟨⟩
  all_goals rintro _ ⟨⟩

theorem sum_plain (left right : Value) (arguments : List Value) :
    PlainResult arguments (sum left right) := by
  unfold sum
  split <;> rintro _ ⟨⟩

theorem apply_plain (op : BinaryOp) (left right : Value) (arguments : List Value) :
    PlainResult arguments (op.apply left right) := by
  unfold apply
  split
  · rintro _ ⟨⟩
  · rintro _ ⟨⟩
  · exact sum_plain left right arguments
  · split
    · exact onNumbers_plain op _ _ arguments
    · rintro _ ⟨⟩

end BinaryOp

/-! ### Faults of operators -/

/-- The faults of a prefix operator are about the operand. -/
theorem UnaryOp.fault_of_apply {op : UnaryOp} {value : Value} {fault : Fault}
    (wrong : op.apply value = .error fault) :
    ∃ subject expected got, fault = .typeMismatch subject op.symbol expected got := by
  unfold UnaryOp.apply at wrong
  split at wrong <;> cases wrong
  exact ⟨_, _, _, rfl⟩

/-- The faults of an operator are about the operands, except for the division by zero. -/
theorem BinaryOp.fault_of_apply {op : BinaryOp} {first second : Value} {fault : Fault}
    (wrong : op.apply first second = .error fault) :
    (∃ subject expected got, fault = .typeMismatch subject op.symbol expected got) ∨
      op = .divide ∧ fault = .divideByZero := by
  unfold BinaryOp.apply at wrong
  split at wrong
  · cases wrong
  · cases wrong
  · unfold BinaryOp.sum at wrong
    split at wrong <;> cases wrong
    exact .inl ⟨_, _, _, rfl⟩
  · split at wrong
    · unfold BinaryOp.onNumbers at wrong
      split at wrong <;> try cases wrong
      split at wrong <;> cases wrong
      exact .inr ⟨rfl, rfl⟩
    · cases wrong
      exact .inl ⟨_, _, _, rfl⟩

/-! ### Values that look the same -/

/-- Operators cannot tell two values apart, except by asking whether they are equal: they are the
same, or two closures of the same name. -/
inductive Value.Looks : Value → Value → Prop
  | same (value : Value) : Looks value value
  | closures {closure closure' : Closure}
      (named : closure.decl.name.text = closure'.decl.name.text) :
      Looks (.function (.closure closure)) (.function (.closure closure'))

namespace Value.Looks

variable {value value' other other' : Value}

theorem isTruthy (looks : value.Looks value') : value.isTruthy = value'.isTruthy := by
  cases looks <;> rfl

theorem render (looks : value.Looks value') : value.render = value'.render := by
  cases looks with
  | same => rfl
  | closures named => simp only [Value.render, Function.text, named]

theorem unary (op : UnaryOp) (looks : value.Looks value') : op.apply value = op.apply value' := by
  cases looks with
  | same => rfl
  | closures named => cases op <;> rfl

theorem sum (looks : value.Looks value') (others : other.Looks other') :
    BinaryOp.sum value other = BinaryOp.sum value' other' := by
  have second := others.render
  cases looks with
  | same =>
      cases others with
      | same => rfl
      | closures named =>
          cases value <;> simp only [BinaryOp.sum, second, Fault.notAddable, Value.typeName]
  | closures named =>
      have first := Value.Looks.render (.closures named)
      cases others with
      | same => cases other <;> simp only [BinaryOp.sum, first, Fault.notAddable, Value.typeName]
      | closures _ => rfl

theorem binary (op : BinaryOp) (looks : value.Looks value') (others : other.Looks other')
    (equally : value.equal other = value'.equal other') :
    op.apply value other = op.apply value' other' := by
  unfold BinaryOp.apply
  split
  · rw [equally]
  · rw [equally]
  · exact looks.sum others
  · cases looks with
    | same =>
        cases others with
        | same => rfl
        | closures _ => cases value <;> rfl
    | closures _ =>
        cases others with
        | same => cases other <;> rfl
        | closures _ => rfl

end Value.Looks

end Lox
