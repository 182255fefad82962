import Lox.Proofs.Interpreter.Confinement
import Lox.Proofs.Interpreter.Fuel
import Lox.Proofs.Parser.Attempt
import Lox.Proofs.Syntax.Declaring

/-!
Signals that escape from programs that were accepted.

The parser lets a `break`, `continue` or `return` through only where the rules allow one, so the
statements of an accepted program are confined, and so is the body of every function that a session
of accepted programs has made (`History.keeps`). Hence a run in such a session ends with the error
of an escaped signal only at a loose break: one in the program that runs, or in a function that can
be called from the frame that it runs in.
-/

namespace Lox

/-! ### Accepted programs -/

/-- A program is what the parser makes of a row of tokens with an end in which it found no fault. -/
def Accepted (program : List Stmt) : Prop :=
  ∃ (tokens : List Token) (expressionOnly : Bool), (∃ token ∈ tokens, token.kind = .endOfInput) ∧
    (parse tokens expressionOnly).errorCount = 0 ∧
    (parse tokens expressionOnly).statements = program

/-- An accepted program is a single expression to be printed, or what a lawful program becomes. -/
theorem Accepted.trees {program : List Stmt} (accepted : Accepted program) :
    (∃ expr, program = [.print expr]) ∨
      ∃ body, Declaration.AllObey body .program ∧ program = Declaration.trees body := by
  obtain ⟨tokens, expressionOnly, ended, clean, rfl⟩ := accepted
  have declarations (clean : (parse tokens false).errorCount = 0) :
      ∃ body, Declaration.AllObey body .program ∧
        (parse tokens false).statements = Declaration.trees body := by
    obtain ⟨front, body, last, rest, -, -, -, rowOf, same⟩ := Parser.parseProgram_sound ended clean
    exact ⟨body, rowOf.obeys, same⟩
  cases expressionOnly with
  | false => exact .inr (declarations clean)
  | true =>
      by_cases bare : ∃ expr, Parser.BareExpression tokens expr
      · obtain ⟨expr, bare⟩ := bare
        rw [Parser.parse_bare ended bare]
        exact .inl ⟨expr, rfl⟩
      · have same := Parser.parse_not_bare ended fun expr given => bare ⟨expr, given⟩
        rw [same] at clean ⊢
        exact .inr (declarations clean)

theorem Accepted.confined {program : List Stmt} (accepted : Accepted program) :
    Stmt.AllConfined (fun _ => True) program .program := by
  rcases accepted.trees with ⟨expr, rfl⟩ | ⟨body, obeys, rfl⟩
  · exact ⟨trivial, trivial⟩
  · exact Declaration.trees_confined body .program .program obeys .program

/-- All statements of an accepted program are declarations or declare nothing where they stand. -/
theorem Accepted.settled {program : List Stmt} (accepted : Accepted program) :
    ∀ stmt ∈ program, stmt.AllSettled := by
  rcases accepted.trees with ⟨expr, rfl⟩ | ⟨body, -, rfl⟩
  · exact List.forall_mem_singleton.mpr (.print (.statement trivial) expr.all_true)
  · exact Declaration.trees_settled body

/-! ### Callable functions -/

/-- A frame binds a closure to a name. -/
def Store.Binds (store : Store) (ref : FrameRef) (closure : Closure) : Prop :=
  ∃ frame name, store.frame? ref = some frame ∧
    (name, .bound (.function (.closure closure))) ∈ frame.entries

/-- The frames that code can come to that runs in a frame: those around it, and those of the
closures that are bound in one of them. -/
inductive Store.Sees (store : Store) (start : FrameRef) : FrameRef → Prop where
  | start : store.Sees start start
  | parent {ref frame parent} (sees : store.Sees start ref) (found : store.frame? ref = some frame)
      (up : frame.parent = some parent) : store.Sees start parent
  | scope {ref closure} (sees : store.Sees start ref) (binds : store.Binds ref closure) :
      store.Sees start closure.scope

/-- A closure can be called by code that runs in a frame. -/
def Store.CanCall (store : Store) (start : FrameRef) (closure : Closure) : Prop :=
  ∃ ref, store.Sees start ref ∧ store.Binds ref closure

/-- The lines of the loose breaks in a program and in the functions that it can call. -/
def LooseBreakAt (program : List Stmt) (store : Store) (start : FrameRef) (line : Nat) : Prop :=
  line ∈ Stmt.looseBreaksIn program false false ∨
    ∃ closure, store.CanCall start closure ∧ line ∈ Stmt.looseBreaksIn closure.decl.body false false

namespace Reach

/-- Everything, with loose breaks on any line. -/
def everything : Reach := ⟨fun _ => True, fun _ => True⟩

theorem keeps_empty : everything.Keeps Store.empty where
  bound ref frame name value _ found := by simp [Store.frame?, Store.empty] at found
  parent ref frame parent _ found := by simp [Store.frame?, Store.empty] at found
  fresh _ _ := trivial

/-- What a run of a program in a frame can come to, frames that it adds included. -/
def ofRun (program : List Stmt) (store : Store) (start : FrameRef) : Reach where
  frames ref := store.Sees start ref ∨ store.frames.size ≤ ref.index
  loose := LooseBreakAt program store start

/-- If all functions in a store are confined, a run comes to no other loose breaks than those in
functions that it can call. -/
theorem keeps_ofRun {store : Store} (keeps : everything.Keeps store) (program : List Stmt)
    (start : FrameRef) : (ofRun program store start).Keeps store where
  bound ref frame name value within found member := by
    rintro closure rfl
    have inside := Store.lt_size found
    have sees : store.Sees start ref := within.resolve_right (by omega)
    have binds : store.Binds ref closure := ⟨frame, name, found, member⟩
    obtain ⟨code, -⟩ := keeps.bound ref frame name _ trivial found member closure rfl
    refine ⟨Stmt.AllConfined.tighten closure.decl.body .functionBody code ?_,
      .inl (.scope sees binds)⟩
    exact fun line loose => .inr ⟨closure, ⟨ref, sees, binds⟩, loose⟩
  parent ref frame parent within found up := by
    have inside := Store.lt_size found
    exact .inl (.parent (within.resolve_right (by omega)) found up)
  fresh ref new := .inr new

end Reach

/-- The error that an action failed with. -/
def Outcome.error? {α : Type} : Outcome α → Option RuntimeError
  | .failed error _ => some error
  | .done _ _ => none
  | .outOfFuel => none

theorem Outcome.error?_eq_some {α : Type} {outcome : Outcome α} {error : RuntimeError} :
    outcome.error? = some error ↔ ∃ machine, outcome = .failed error machine := by
  cases outcome <;> simp [error?]

namespace Interpreter

/-! ### Runs -/

theorem executeIn_confines {host : Host} (plain : ∀ function ∈ host.functions, function.Plain)
    (reach : Reach) {program : List Stmt} (confined : Stmt.AllConfined reach.loose program .program)
    {ref : FrameRef} (within : reach.frames ref) (fuel : Nat) :
    (executeIn host fuel program ref).Confines reach fun _ => True := by
  intro machine keeps
  have runs := (confining plain reach fuel).executeAll program ref .program confined within
  refine Exec.Confines.bind runs (fun flow allows => ?_) { machine with callDepth := 0 } keeps
  cases flow with
  | normal => exact .pure trivial
  | breaking signal =>
      rcases signal with ⟨_ | label, line⟩
      · refine .fail ?_
        rintro signal ⟨⟩
        exact ⟨rfl, allows.resolve_left (by rintro ⟨⟩)⟩
      · cases allows
  | continuing signal =>
      rcases signal with ⟨_ | label, line⟩
      · exact absurd rfl allows
      · cases allows
  | returning value line => cases allows.1

theorem interpret_confines {host : Host} (plain : ∀ function ∈ host.functions, function.Plain)
    (reach : Reach) {program : List Stmt} (confined : Stmt.AllConfined reach.loose program .program)
    (within : reach.frames globals) (fuel : Nat) :
    (interpret host fuel program).Confines reach fun _ => True :=
  .bind (.newChild within) fun _ inside => executeIn_confines plain reach confined inside fuel

theorem plain_build {functions : List HostFunction} (plain : ∀ function ∈ functions, function.Plain)
    (clock : Nat → Float) (limit : Nat) :
    ∀ function ∈ (build functions clock limit).host.functions, function.Plain := by
  intro function member
  rcases List.mem_cons.mp (List.mem_toArray.mp member) with rfl | member
  · rintro _ ⟨⟩
  · exact plain function member

/-- All that a host does to which nothing is added is to read the clock. -/
theorem reads_build (clock : Nat → Float) (limit : Nat) :
    ∀ function ∈ (build [] clock limit).host.functions, function.action = .readClock := by
  intro function member
  obtain rfl := List.mem_singleton.mp (List.mem_toArray.mp member)
  rfl

theorem keeps_register {store : Store} (keeps : Reach.everything.Keeps store) (id : Nat)
    (functions : List HostFunction) : Reach.everything.Keeps (register store id functions) := by
  induction functions generalizing store id with
  | nil => exact keeps
  | cons function rest ih =>
      refine ih (keeps.define globals function.name ?_) (id + 1)
      rintro given ⟨⟩ _ ⟨⟩

/-- The machines of a session in which only accepted programs have run, each in whatever frame and
with whatever fuel; between two runs frames may be added and what was printed taken away. -/
inductive History (interpreter : Interpreter) : Machine → Prop where
  | start : History interpreter interpreter.machine
  | addFrame {machine} (before : History interpreter machine) (parent : Option FrameRef) :
      History interpreter { machine with store := (machine.store.addFrame parent).2 }
  | drain {machine} (before : History interpreter machine) :
      History interpreter { machine with printed := #[] }
  | done {machine program fuel ref after} (before : History interpreter machine)
      (accepted : Accepted program)
      (run : executeIn interpreter.host fuel program ref machine = .done () after) :
      History interpreter after
  | failed {machine program fuel ref error after} (before : History interpreter machine)
      (accepted : Accepted program)
      (run : executeIn interpreter.host fuel program ref machine = .failed error after) :
      History interpreter after

/-- Every function that such a session has made is confined. -/
theorem History.keeps {functions : List HostFunction} {clock : Nat → Float} {limit : Nat}
    (plain : ∀ function ∈ functions, function.Plain) {machine : Machine}
    (history : History (build functions clock limit) machine) :
    Reach.everything.Keeps machine.store := by
  have plainHost := plain_build plain clock limit
  induction history with
  | start =>
      exact keeps_register (Reach.keeps_empty.addFrame (by simp)) 0 _
  | addFrame before parent ih => exact ih.addFrame fun _ _ => trivial
  | drain before ih => exact ⟨ih.bound, ih.parent, ih.fresh⟩
  | @done machine program fuel ref after before accepted run ih =>
      have within : Reach.everything.frames ref := trivial
      have confines :=
        executeIn_confines plainHost .everything accepted.confined within fuel machine ih
      rw [run] at confines
      exact confines.1
  | @failed machine program fuel ref error after before accepted run ih =>
      have within : Reach.everything.frames ref := trivial
      have confines :=
        executeIn_confines plainHost .everything accepted.confined within fuel machine ih
      rw [run] at confines
      exact confines.1

/-- An action that keeps within what a run can come to has no other escaped signals than loose
breaks. -/
theorem escapes_of_confines {α : Type} {done : α → Prop} {action : Exec α} {program : List Stmt}
    {start : FrameRef} {machine after : Machine} {signal : String} {line : Nat}
    (keeps : Reach.everything.Keeps machine.store)
    (confines : action.Confines (.ofRun program machine.store start) done)
    (run : action machine = .failed ⟨.escapedSignal signal, line⟩ after) :
    signal = "break" ∧ LooseBreakAt program machine.store start line := by
  have confined := confines machine (Reach.keeps_ofRun keeps program start)
  rw [run] at confined
  exact confined.2 signal rfl

/-- What escapes from an accepted program that a new interpreter runs is a `break` without a
label. -/
theorem escape_of_interpret {clock : Nat → Float} {limit fuel : Nat} {program : List Stmt}
    {signal : String} {line : Nat} {after : Machine} (accepted : Accepted program)
    (run : interpret (build [] clock limit).host fuel program (build [] clock limit).machine =
      .failed ⟨.escapedSignal signal, line⟩ after) :
    signal = "break" := by
  have plain : ∀ function ∈ ([] : List HostFunction), function.Plain := by simp
  have begun : History (build [] clock limit) (build [] clock limit).machine := .start
  have confines :=
    interpret_confines (plain_build plain clock limit) Reach.everything accepted.confined trivial
    fuel _ (begun.keeps plain)
  rw [run] at confines
  exact (confines.2 signal rfl).1

/-- In a session of accepted programs, the run of another one ends with the error of an escaped
signal only for a `break` without a label, and only on the line of one that is inside a label but in
no loop, in the program or in a function that can be called from the frame of the run. -/
theorem escapes_only_loose_breaks {functions : List HostFunction} {clock : Nat → Float}
    {limit : Nat} {machine : Machine} {program : List Stmt}
    (plain : ∀ function ∈ functions, function.Plain)
    (history : History (build functions clock limit) machine) (accepted : Accepted program)
    (fuel : Nat) (signal : String) (line : Nat) (after : Machine) :
    (∀ ref, executeIn (build functions clock limit).host fuel program ref machine =
        .failed ⟨.escapedSignal signal, line⟩ after →
      signal = "break" ∧ LooseBreakAt program machine.store ref line) ∧
    (interpret (build functions clock limit).host fuel program machine =
        .failed ⟨.escapedSignal signal, line⟩ after →
      signal = "break" ∧ LooseBreakAt program machine.store globals line) := by
  have keeps := history.keeps plain
  have plainHost := plain_build plain clock limit
  have confined (start : FrameRef) :
      Stmt.AllConfined (Reach.ofRun program machine.store start).loose program .program :=
    Stmt.AllConfined.tighten program .program accepted.confined fun _ loose => .inl loose
  constructor
  · intro ref run
    exact escapes_of_confines keeps
      (executeIn_confines plainHost _ (confined ref) (.inl .start) fuel) run
  · intro run
    exact escapes_of_confines keeps
      (interpret_confines plainHost _ (confined globals) (.inl .start) fuel) run

/-- A function of an earlier line whose loose break is on line 7, called by a later line. -/
theorem escapes_from_earlier_function :
    let interpreter := build [] (fun _ => 0) defaultMaxCallDepth
    let token (kind : TokenKind) (text : String) : Token := .plain kind text 7
    let earlier := (parse [token .kwFun "fun", token .identifier "f", token .leftParen "(",
      token .rightParen ")", token .leftBrace "", token .colon ":", token .identifier "a",
      token .kwIf "if", token .leftParen "(", token .kwTrue "true", token .rightParen ")",
      token .kwBreak "break", token .semicolon ";", token .rightBrace "", .endOfInput 7] false)
    let later := (parse [token .identifier "f", token .leftParen "(", token .rightParen ")",
      token .semicolon ";", .endOfInput 8] false)
    ∃ machine after,
      executeIn interpreter.host 40 earlier.statements globals interpreter.machine =
        .done () machine ∧
      executeIn interpreter.host 40 later.statements globals machine =
        .failed ⟨.escapedSignal "break", 7⟩ after ∧
      LooseBreakAt later.statements machine.store globals 7 := by
  intro interpreter token earlier later
  have acceptedEarlier : Accepted earlier.statements := by
    refine ⟨_, false, ⟨.endOfInput 7, ?_, rfl⟩, ?_, rfl⟩
    · simp
    · decide +kernel
  have acceptedLater : Accepted later.statements := by
    refine ⟨_, false, ⟨.endOfInput 8, ?_, rfl⟩, ?_, rfl⟩
    · simp
    · decide +kernel
  have earlierEnds :
      (executeIn interpreter.host 40 earlier.statements globals interpreter.machine).error? =
        none := by
    decide +kernel
  have laterFails : ((executeIn interpreter.host 40 earlier.statements globals >>= fun _ =>
      executeIn interpreter.host 40 later.statements globals) interpreter.machine).error? =
        some ⟨.escapedSignal "break", 7⟩ := by
    decide +kernel
  cases runEarlier :
    executeIn interpreter.host 40 earlier.statements globals interpreter.machine with
  | outOfFuel =>
      rw [Exec.bind_outOfFuel runEarlier] at laterFails
      cases laterFails
  | failed error machine =>
      rw [runEarlier] at earlierEnds
      cases earlierEnds
  | done result machine =>
      rw [Exec.bind_done runEarlier] at laterFails
      obtain ⟨after, runLater⟩ := Outcome.error?_eq_some.mp laterFails
      have history := History.done .start acceptedEarlier runEarlier
      refine ⟨machine, after, rfl, runLater, ?_⟩
      exact ((escapes_only_loose_breaks (by simp) history acceptedLater 40 "break" 7 after).1
        globals runLater).2

end Interpreter

end Lox
