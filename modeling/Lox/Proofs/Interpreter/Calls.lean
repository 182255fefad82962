import Lox.Proofs.Interpreter.CallDepth
import Lox.Proofs.Interpreter.Loops

/-!
The order of a call.

A call is taken apart into what it does one after another. Its callee is evaluated, then its
arguments from left to right, each once and each in the machine that the one before left; whatever
fails first is how the call ends. With all values at hand it is tested whether the callee is a
function, whether it takes as many arguments as there are, and, for a closure, whether the limit on
calls in progress allows another. A call that does not pass leaves the machine as the last argument
left it. Only then is anything bound or run.

That the callee is a function is tested after the arguments are evaluated, not before: an argument
that fails is reported in place of a callee that cannot be called.
-/

namespace Lox.Interpreter

open Exec

variable {host : Host} {ref : FrameRef} {line : Nat}

/-! ### What a call comes to -/

/-- The values of a row of expressions, from left to right, each in the machine that the one before
left. -/
inductive Evaluated (host : Host) (ref : FrameRef) :
    List Expr → Machine → List Value → Machine → Prop where
  | nil {machine} : Evaluated host ref [] machine [] machine
  | cons {expr rest before value middle values after}
      (first : Ends (evaluate host · expr ref) before (.done value middle))
      (others : Evaluated host ref rest middle values after) :
      Evaluated host ref (expr :: rest) before (value :: values) after

/-- How a call ends once its callee and arguments are evaluated. -/
inductive Invoked (host : Host) (line : Nat) :
    Value → List Value → Machine → Outcome Value → Prop where
  | notCallable {callee arguments machine} (other : ∀ function, callee ≠ .function function) :
      Invoked host line callee arguments machine
        (.failed ⟨.notCallable callee.typeName, line⟩ machine)
  | misfit {function arguments machine} (misfit : arguments.length ≠ function.arity) :
      Invoked host line (.function function) arguments machine
        (.failed ⟨.arityMismatch function.arity arguments.length, line⟩ machine)
  | native {native arguments machine} (fits : arguments.length = native.arity) :
      Invoked host line (.function (.native native)) arguments machine
        (callNative host native arguments line machine)
  | tooDeep {closure arguments machine} (fits : arguments.length = closure.decl.arity)
      (full : host.maxCallDepth ≤ machine.callDepth) :
      Invoked host line (.function (.closure closure)) arguments machine
        (.failed ⟨.stackOverflow host.maxCallDepth, line⟩ machine)
  | bodyFailed {closure arguments machine inner entered error after}
      (fits : arguments.length = closure.decl.arity) (room : machine.callDepth < host.maxCallDepth)
      (enters : enter closure arguments { machine with callDepth := machine.callDepth + 1 } =
        .done inner entered)
      (ran : Ends (executeAll host · closure.decl.body inner) entered (.failed error after)) :
      Invoked host line (.function (.closure closure)) arguments machine
        (.failed error { after with callDepth := machine.callDepth })
  | body {closure arguments machine inner entered flow after}
      (fits : arguments.length = closure.decl.arity) (room : machine.callDepth < host.maxCallDepth)
      (enters : enter closure arguments { machine with callDepth := machine.callDepth + 1 } =
        .done inner entered)
      (ran : Ends (executeAll host · closure.decl.body inner) entered (.done flow after)) :
      Invoked host line (.function (.closure closure)) arguments machine
        (callResult flow { after with callDepth := machine.callDepth })

/-- How a call ends that begins with the evaluation of its callee. -/
inductive CallEnds (host : Host) (ref : FrameRef) (callee : Expr) (arguments : List Expr)
    (line : Nat) (before : Machine) : Outcome Value → Prop where
  | callee {error after} (fails : Ends (evaluate host · callee ref) before (.failed error after)) :
      CallEnds host ref callee arguments line before (.failed error after)
  | argument {function middle front expr rest values last error after}
      (found : Ends (evaluate host · callee ref) before (.done function middle))
      (split : arguments = front ++ expr :: rest)
      (given : Evaluated host ref front middle values last)
      (fails : Ends (evaluate host · expr ref) last (.failed error after)) :
      CallEnds host ref callee arguments line before (.failed error after)
  | invoked {function middle values after outcome}
      (found : Ends (evaluate host · callee ref) before (.done function middle))
      (given : Evaluated host ref arguments middle values after)
      (invoked : Invoked host line function values after outcome) :
      CallEnds host ref callee arguments line before outcome

/-! ### Arguments -/

theorem steady_evaluateAll (host : Host) (ref : FrameRef) (exprs : List Expr) :
    Steady (evaluateAll host · exprs ref) :=
  fun fuel => (moreFuel host fuel).evaluateAll exprs ref

theorem evaluateAll_nil_ends {before : Machine} {outcome : Outcome (List Value)} :
    Ends (evaluateAll host · [] ref) before outcome ↔ outcome = .done [] before :=
  Ends.at_once (by simp) fun _ => rfl

/-- The first of a row of expressions is evaluated before all others. -/
theorem evaluateAll_cons_ends {expr : Expr} {rest : List Expr} {before : Machine}
    {outcome : Outcome (List Value)} :
    Ends (evaluateAll host · (expr :: rest) ref) before outcome ↔
      (∃ error after, Ends (evaluate host · expr ref) before (.failed error after) ∧
        outcome = .failed error after) ∨
      ∃ value middle, Ends (evaluate host · expr ref) before (.done value middle) ∧
        Ends (fun fuel => evaluateAll host fuel rest ref >>= fun values =>
          pure (value :: values)) middle
          outcome := by
  rw [← Ends.step]
  exact Ends.bind_iff (steady_evaluate host ref expr)

theorem evaluateAll_done_iff {exprs : List Expr} {before after : Machine} {values : List Value} :
    Ends (evaluateAll host · exprs ref) before (.done values after) ↔
      Evaluated host ref exprs before values after := by
  induction exprs generalizing before values with
  | nil =>
      rw [evaluateAll_nil_ends]
      constructor
      · rintro ⟨⟩
        exact .nil
      · rintro ⟨⟩
        rfl
  | cons expr rest ih =>
      rw [evaluateAll_cons_ends]
      constructor
      · rintro (⟨error, last, -, other⟩ | ⟨value, middle, first, others⟩)
        · cases other
        rcases (Ends.bind_iff (steady_evaluateAll host ref rest)).mp others with
          ⟨error, last, -, other⟩ | ⟨found, last, others, collected⟩
        · cases other
        obtain ⟨-, collected⟩ := Ends.const_iff.mp collected
        cases collected
        exact .cons first (ih.mp others)
      · rintro ⟨⟩
        rename_i value middle values first others
        exact .inr ⟨value, middle, first, (ih.mpr others).bind (.const (by simp) rfl)⟩

/-- A row of expressions fails where the first of them does that fails, and those after it are left
alone. -/
theorem evaluateAll_failed_iff {exprs : List Expr} {before after : Machine} {error : RuntimeError} :
    Ends (evaluateAll host · exprs ref) before (.failed error after) ↔
      ∃ front expr rest values last, exprs = front ++ expr :: rest ∧
        Evaluated host ref front before values last ∧
        Ends (evaluate host · expr ref) last (.failed error after) := by
  induction exprs generalizing before with
  | nil =>
      rw [evaluateAll_nil_ends]
      constructor
      · rintro ⟨⟩
      · rintro ⟨front, expr, rest, values, last, empty, -, -⟩
        simp at empty
  | cons first others ih =>
      rw [evaluateAll_cons_ends]
      constructor
      · rintro (⟨error, last, fails, same⟩ | ⟨value, middle, done, collecting⟩)
        · cases same
          exact ⟨[], first, others, [], before, rfl, .nil, fails⟩
        rcases (Ends.bind_iff (steady_evaluateAll host ref others)).mp collecting with
          ⟨error, last, fails, same⟩ | ⟨values, last, -, collected⟩
        · cases same
          obtain ⟨front, expr, rest, values, last, split, given, fails⟩ := ih.mp fails
          exact ⟨first :: front, expr, rest, value :: values, last,
            by rw [split]; rfl, .cons done given, fails⟩
        · obtain ⟨-, collected⟩ := Ends.const_iff.mp collected
          cases collected
      · rintro ⟨front, expr, rest, values, last, split, given, fails⟩
        cases given with
        | nil =>
            cases split
            exact .inl ⟨error, after, fails, rfl⟩
        | cons done given =>
            cases split
            exact .inr ⟨_, _, done, (ih.mpr ⟨_, expr, rest, _, last, rfl, given, fails⟩).bindFailed⟩

/-! ### Invocation -/

variable {arguments : List Value} {machine : Machine}

theorem steady_runClosure (host : Host) (closure : Closure) (arguments : List Value) :
    Steady (runClosure host · closure arguments) :=
  fun fuel => (moreFuel host fuel).runClosure closure arguments

/-- An action is nested in a call if the limit allows another, and the call is over when the action
ends. -/
theorem nested_ends {run : Nat → Exec Flow} (steady : Steady run) {limit : Nat}
    {outcome : Outcome Flow} :
    Ends (fun fuel => nested limit line (run fuel)) machine outcome ↔
      (limit ≤ machine.callDepth ∧ outcome = .failed ⟨.stackOverflow limit, line⟩ machine) ∨
      (machine.callDepth < limit ∧ ∃ inside,
        Ends run { machine with callDepth := machine.callDepth + 1 } inside ∧
        outcome = Outcome.mapMachine (fun after => { after with callDepth := after.callDepth - 1 })
          inside) := by
  by_cases full : limit ≤ machine.callDepth
  · have refused (fuel : Nat) : nested limit line (run fuel) machine =
        .failed ⟨.stackOverflow limit, line⟩ machine := by rw [nested, if_pos full]
    constructor
    · rintro ⟨-, enough, all⟩
      exact .inl ⟨full, (all enough (Nat.le_refl _)).symm.trans (refused enough)⟩
    · rintro (⟨-, rfl⟩ | ⟨room, -⟩)
      · exact ⟨by simp, 0, fun fuel _ => refused fuel⟩
      · omega
  · have room : machine.callDepth < limit := Nat.lt_of_not_le full
    have inside (fuel : Nat) : nested limit line (run fuel) machine =
        Outcome.mapMachine (fun after => { after with callDepth := after.callDepth - 1 })
          (run fuel { machine with callDepth := machine.callDepth + 1 }) := by
            rw [nested, if_neg full]
    constructor
    · rintro ⟨ends, enough, all⟩
      have here := (inside enough).symm.trans (all enough (Nat.le_refl _))
      have ended :=
        @Steady.ends _ run steady enough { machine with callDepth := machine.callDepth + 1 }
        fun starved => ends (by rw [← here, starved]; rfl)
      exact .inr ⟨room, _, ended, here.symm⟩
    · rintro (⟨full', -⟩ | ⟨-, outcome, ⟨ends, enough, all⟩, rfl⟩)
      · exact absurd full' full
      · refine ⟨?_, enough, fun fuel le => (inside fuel).trans (by rw [all fuel le])⟩
        cases outcome with
        | outOfFuel => exact absurd rfl ends
        | done flow after => simp [Outcome.mapMachine]
        | failed error after => simp [Outcome.mapMachine]

theorem bindParameters_done (ref : FrameRef) (parameters : List Name) (arguments : List Value)
    (machine : Machine) :
    ∃ after, bindParameters ref parameters arguments machine = .done () after := by
  induction parameters generalizing arguments machine with
  | nil => exact ⟨machine, rfl⟩
  | cons parameter parameters ih =>
      cases arguments with
      | nil => exact ⟨machine, rfl⟩
      | cons argument arguments => exact ih arguments _

/-- A closure can always be entered. -/
theorem enter_done (closure : Closure) (arguments : List Value) (machine : Machine) :
    ∃ inner entered, enter closure arguments machine = .done inner entered := by
  have made : newChild closure.scope machine =
    .done machine.store.nextRef
      { machine with store := (machine.store.addChild closure.scope).2 } := rfl
  obtain ⟨entered, bound⟩ :=
    bindParameters_done machine.store.nextRef closure.decl.parameters arguments
    { machine with store := (machine.store.addChild closure.scope).2 }
  exact ⟨machine.store.nextRef, entered, (bind_done made).trans (bind_done bound)⟩

/-- A closure is run by entering it and executing its body there. -/
theorem runClosure_ends {closure : Closure} {outcome : Outcome Flow} :
    Ends (runClosure host · closure arguments) machine outcome ↔
      ∃ inner entered, enter closure arguments machine = .done inner entered ∧
        Ends (executeAll host · closure.decl.body inner) entered outcome := by
  have step : (fun fuel => runClosure host (fuel + 1) closure arguments) =
      fun fuel => enter closure arguments >>= fun inner =>
        executeAll host fuel closure.decl.body inner :=
    funext fun fuel => runClosure_eq host fuel closure arguments
  rw [← Ends.step, step, Ends.bind_iff (.const _)]
  simp only [Ends.const_iff]
  constructor
  · rintro (⟨error, after, ⟨-, fails⟩, -⟩ | ⟨inner, entered, ⟨-, enters⟩, ran⟩)
    · obtain ⟨inner, entered, enters⟩ := enter_done closure arguments machine
      cases enters.symm.trans fails
    · exact ⟨inner, entered, enters, ran⟩
  · rintro ⟨inner, entered, enters, ran⟩
    exact .inr ⟨inner, entered, ⟨by simp, enters⟩, ran⟩

/-- The call of a closure, up to the end of its body. -/
theorem nestedBody_ends {closure : Closure} {outcome : Outcome Flow} :
    Ends (fun fuel => nested host.maxCallDepth line (runClosure host fuel closure arguments))
      machine outcome ↔
      (host.maxCallDepth ≤ machine.callDepth ∧
        outcome = .failed ⟨.stackOverflow host.maxCallDepth, line⟩ machine) ∨
      (machine.callDepth < host.maxCallDepth ∧ ∃ inner entered inside,
        enter closure arguments { machine with callDepth := machine.callDepth + 1 } =
          .done inner entered ∧
        Ends (executeAll host · closure.decl.body inner) entered inside ∧
        outcome = Outcome.mapMachine (fun after => { after with callDepth := machine.callDepth })
          inside) := by
  have restores {inside : Outcome Flow} (ran : Ends (runClosure host · closure arguments)
        { machine with callDepth := machine.callDepth + 1 } inside) :
      Outcome.mapMachine (fun after => { after with callDepth := after.callDepth - 1 }) inside =
        Outcome.mapMachine (fun after => { after with callDepth := machine.callDepth }) inside := by
    obtain ⟨-, enough, all⟩ := ran
    rw [← all enough (Nat.le_refl _)]
    exact over_eq (((continues_runs host enough).runClosure closure arguments _).imp
      fun after more => more.callDepth)
  rw [nested_ends (steady_runClosure host closure arguments)]
  refine or_congr_right (and_congr_right fun _ => ?_)
  constructor
  · rintro ⟨inside, ran, rfl⟩
    obtain ⟨inner, entered, enters, body⟩ := runClosure_ends.mp ran
    exact ⟨inner, entered, inside, enters, body, restores ran⟩
  · rintro ⟨inner, entered, inside, enters, body, rfl⟩
    have ran := runClosure_ends.mpr ⟨inner, entered, enters, body⟩
    exact ⟨inside, ran, (restores ran).symm⟩

theorem callResult_ends (flow : Flow) (machine : Machine) :
    callResult flow machine ≠ .outOfFuel := by
  intro starved
  cases flow <;> cases starved

/-- A call of a closure that gives as many arguments as it takes. -/
theorem callClosure_ends {closure : Closure} (fits : arguments.length = closure.decl.arity)
    {outcome : Outcome Value} :
    Ends (callValue host · (.function (.closure closure)) arguments line) machine outcome ↔
      Invoked host line (.function (.closure closure)) arguments machine outcome := by
  have step :
      (fun fuel => callValue host (fuel + 1) (.function (.closure closure)) arguments line) =
      fun fuel =>
        nested host.maxCallDepth line (runClosure host fuel closure arguments) >>= callResult :=
    funext fun fuel => callValue_closure fits line fuel
  have steady : Steady fun fuel =>
      nested host.maxCallDepth line (runClosure host fuel closure arguments) :=
    fun fuel => .nested _ line (steady_runClosure host closure arguments fuel)
  rw [← Ends.step, step, Ends.bind_iff steady]
  simp only [nestedBody_ends, Ends.const_iff]
  constructor
  · rintro (⟨error, after, ⟨full, same⟩ | ⟨room, inner, entered, inside, enters, ran, same⟩, rfl⟩ |
      ⟨flow, middle, ⟨-, same⟩ | ⟨room, inner, entered, inside, enters, ran, same⟩, -, rfl⟩)
    · cases same
      exact .tooDeep fits full
    · cases inside with
      | failed error last =>
          cases same
          exact .bodyFailed fits room enters ran
      | done flow last | outOfFuel => cases same
    · cases same
    · cases inside with
      | done flow last =>
          cases same
          exact .body fits room enters ran
      | failed error last | outOfFuel => cases same
  · intro invoked
    cases invoked with
    | notCallable other => exact absurd rfl (other _)
    | misfit misfit => exact absurd fits misfit
    | tooDeep _ full => exact .inl ⟨_, _, .inl ⟨full, rfl⟩, rfl⟩
    | bodyFailed _ room enters ran => exact .inl ⟨_, _, .inr ⟨room, _, _, _, enters, ran, rfl⟩, rfl⟩
    | body _ room enters ran =>
        exact .inr ⟨_, _, .inr ⟨room, _, _, _, enters, ran, rfl⟩, callResult_ends _ _, rfl⟩

/-- A call that fits is one of a closure or of a function of the host; all others fail where they
are. -/
theorem callValue_ends {callee : Value} {outcome : Outcome Value} :
    Ends (callValue host · callee arguments line) machine outcome ↔
      Invoked host line callee arguments machine outcome := by
  cases callee with
  | function function =>
      by_cases misfit : arguments.length ≠ function.arity
      · have refused (fuel : Nat) :
            callValue host (fuel + 1) (.function function) arguments line machine =
            .failed ⟨.arityMismatch function.arity arguments.length, line⟩ machine := by
          simp only [callValue, if_pos misfit]
          rfl
        rw [Ends.at_once (by simp) refused]
        constructor
        · rintro rfl
          exact .misfit misfit
        · rintro (other | _ | fits | ⟨fits, _⟩ | ⟨fits, _, _, _⟩ | ⟨fits, _, _, _⟩)
          · exact absurd rfl (other function)
          · rfl
          all_goals exact absurd fits misfit
      have fits : arguments.length = function.arity := Decidable.of_not_not misfit
      cases function with
      | closure closure => exact callClosure_ends fits
      | native native =>
          have called (fuel : Nat) :
              callValue host (fuel + 1) (.function (.native native)) arguments line machine =
              callNative host native arguments line machine := by
            simp only [callValue, if_neg misfit]
          rw [Ends.at_once (callNative_ends native arguments line) called]
          constructor
          · rintro rfl
            exact .native fits
          · rintro (other | misfit' | _)
            · exact absurd rfl (other _)
            · exact absurd fits misfit'
            · rfl
  | nil | bool value | number value | text value =>
      rw [Ends.at_once (by simp) fun _ => rfl]
      constructor
      · rintro rfl
        exact .notCallable (by rintro function ⟨⟩)
      · rintro ⟨⟩
        rfl

/-! ### Calls -/

/-- **A call ends as its parts do, in their order.** The callee is evaluated first, and if that
fails nothing else is done. Then the arguments are evaluated from left to right, each once, and the
first that fails is how the call ends. With all of them at hand a callee that is not a function, a
wrong number of arguments, and for a closure the limit on calls, are tested in this order, and each
is an error at the line of the call that leaves the machine as the last argument left it: nothing is
bound, and nothing of the function has run. Only a call that passes runs the function. -/
theorem call_ends {callee : Expr} {arguments : List Expr} {before : Machine}
    {outcome : Outcome Value} :
    Ends (evaluate host · (.call callee arguments line) ref) before outcome ↔
      CallEnds host ref callee arguments line before outcome := by
  rw [← Ends.step]
  change Ends (fun fuel => evaluate host fuel callee ref >>= fun function =>
    evaluateAll host fuel arguments ref >>= fun values =>
      callValue host fuel function values line) _ _ ↔ _
  rw [Ends.bind_iff (steady_evaluate host ref callee)]
  simp only [Ends.bind_iff (steady_evaluateAll host ref arguments), callValue_ends,
    evaluateAll_done_iff,
    evaluateAll_failed_iff]
  constructor
  · rintro (⟨error, after, fails, rfl⟩ | ⟨function, middle, found,
      ⟨error, after, ⟨front, expr, rest, values, last, split, given, fails⟩, rfl⟩ |
      ⟨values, last, given, invoked⟩⟩)
    · exact .callee fails
    · exact .argument found split given fails
    · exact .invoked found given invoked
  · intro ends
    cases ends with
    | callee fails => exact .inl ⟨_, _, fails, rfl⟩
    | argument found split given fails =>
        exact .inr ⟨_, _, found, .inl ⟨_, _, ⟨_, _, _, _, _, split, given, fails⟩, rfl⟩⟩
    | invoked found given invoked => exact .inr ⟨_, _, found, .inr ⟨_, _, given, invoked⟩⟩

/-- A callee that is not a function is not what a call fails for if an argument fails before:
`nil(x)` with no `x` is an error for `x`. -/
theorem callee_tested_late :
    ¬ ∀ (host : Host) (ref : FrameRef) (callee : Expr) (arguments : List Expr)
    (line : Nat) (before middle : Machine) (value : Value),
    Ends (evaluate host · callee ref) before (.done value middle) →
      (∀ function, value ≠ .function function) →
      Ends (evaluate host · (.call callee arguments line) ref) before
        (.failed ⟨.notCallable value.typeName, line⟩ middle) := by
  intro early
  let host : Host := ⟨#[], fun _ => 0, 1⟩
  let machine : Machine := ⟨Store.empty.addRoot.2, 0, #[], 0⟩
  have found : Ends (evaluate host · (.literal .nil) globals) machine (.done .nil machine) :=
    @Steady.ends _ _ (steady_evaluate host globals _) 1 machine (by rintro ⟨⟩)
  have fails : Ends (evaluate host · (.call (.literal .nil) [.variable ⟨"x", 1⟩] 1) globals) machine
      (.failed ⟨.undefinedVariable "x", 1⟩ machine) :=
    @Steady.ends _ _ (steady_evaluate host globals _) 3 machine (by rintro ⟨⟩)
  have other :=
    early host globals _ [.variable ⟨"x", 1⟩] 1 machine machine .nil found (by rintro function ⟨⟩)
  cases fails.unique other

end Lox.Interpreter
