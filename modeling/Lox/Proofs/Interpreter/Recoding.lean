import Lox.Proofs.Interpreter.Calls
import Lox.Proofs.Store.Recoding

/-!
Runs of other code with the same effects.

The code of one machine may be written in another way in a second one, whose store lacks some blank
frames besides: up to these it is the store of the first with other bodies of functions
(`Recoding.machine`). Two actions track each other if from two such machines one of them ends only
if the other does, and then both end in the same way, in two such machines again (`Tracks`). The two
may take different steps and different fuel; that the code of the one runs like that of the other is
shown by induction on the fuel with which either of them is known to end.
-/

namespace Lox

open Exec Merging

variable {α β γ δ : Type}

/-! ### Recoded machines -/

/-- The same machine with a recoded store. -/
def Recoding.machine (recoding : Recoding) (machine : Machine) : Machine :=
  { machine with store := recoding.store machine.store }

/-- The same outcome, with its machine recoded. -/
def Outcome.recode (recoding : Recoding) (change : α → β) : Outcome α → Outcome β
  | .done value machine => .done (change value) (recoding.machine machine)
  | .failed error machine => .failed error (recoding.machine machine)
  | .outOfFuel => .outOfFuel

/-- In the recoded machine, an action does what another one does in the machine as it is. -/
def Exec.Recodes (recoding : Recoding) (change : α → β) (action : Exec α) (other : Exec β) : Prop :=
  ∀ machine, other (recoding.machine machine) = (action machine).recode recoding change

/-- A function of the host for which all frames are the same, and which sees no code of closures. -/
structure HostFunction.Discreet (function : HostFunction) : Prop where
  oblivious : function.Oblivious
  blind : ∀ result, function.action = .compute result → ∀ (recoding : Recoding) arguments,
    result (arguments.map recoding.value) = (result arguments).map recoding.value

/-- The clock is given nothing. -/
theorem HostFunction.discreet_clock : HostFunction.clock.Discreet where
  oblivious := by rintro result ⟨⟩
  blind := by rintro result ⟨⟩

namespace Exec.Recodes

variable {recoding : Recoding} (name : Name) (ref : FrameRef)

theorem bind {change : α → β} {changeNext : γ → δ} {first : Exec α} {other : Exec β}
    {next : α → Exec γ} {nextOther : β → Exec δ} (starts : first.Recodes recoding change other)
    (goesOn : ∀ value, (next value).Recodes recoding changeNext (nextOther (change value))) :
    (first >>= next).Recodes recoding changeNext (other >>= nextOther) := by
  intro machine
  have same := starts machine
  cases run : first machine with
  | outOfFuel => rw [bind_outOfFuel run, bind_outOfFuel (same.trans (by rw [run]; rfl))]; rfl
  | failed error after => rw [bind_failed run, bind_failed (same.trans (by rw [run]; rfl))]; rfl
  | done value after =>
      rw [bind_done run, bind_done (same.trans (by rw [run]; rfl))]
      exact goesOn value after

theorem print (text : String) : (print text).Recodes recoding id (print text) :=
  fun _ => rfl

theorem lookup : (lookup name ref).Recodes recoding recoding.value (lookup name ref) := by
  intro machine
  have found := recoding.nearest machine.store ref name.text
  simp only [Exec.lookup, Store.get, Recoding.machine, found]
  cases machine.store.nearest? ref name.text with
  | none => rfl
  | some entry =>
      obtain ⟨owner, slot⟩ := entry
      cases slot <;> rfl

theorem define (given : Option Value) :
    (define ref name given).Recodes recoding id (define ref name (given.map recoding.value)) := by
  intro machine
  have defined := recoding.store_define machine.store ref name.text given
  simp only [Exec.define, Outcome.recode, Recoding.machine, defined, id]

theorem assign (value : Value) :
    (assign ref name value).Recodes recoding id (assign ref name (recoding.value value)) := by
  intro machine
  have found := recoding.nearest machine.store ref name.text
  simp only [Exec.assign, Recoding.machine, found]
  cases machine.store.nearest? ref name.text with
  | none => rfl
  | some entry =>
      have defined := recoding.store_define machine.store entry.1 name.text (some value)
      simp only [Option.map_some, Outcome.recode, Recoding.machine, defined, id]

theorem newChild : (newChild ref).Recodes recoding id (newChild ref) := by
  intro machine
  have added := recoding.store_addFrame machine.store (some ref)
  simp only [Exec.newChild, Store.addChild, Outcome.recode, Recoding.machine, added, id]

theorem makeClosure (decl : FunctionDecl) :
    (makeClosure decl ref).Recodes recoding recoding.closure
    (makeClosure (recoding.code decl) ref) :=
  fun _ => rfl

theorem bindParameters (parameters : List Name) (values : List Value) :
    (bindParameters ref parameters values).Recodes recoding id
      (bindParameters ref parameters (values.map recoding.value)) := by
  induction parameters generalizing values with
  | nil => exact fun _ => rfl
  | cons parameter parameters ih =>
      cases values with
      | nil => exact fun _ => rfl
      | cons value values => exact .bind (.define parameter ref (some value)) fun _ => ih values

theorem callNative {host : Host} (discreet : ∀ function ∈ host.functions, function.Discreet)
    (native : Native) (values : List Value) (line : Nat) :
    (callNative host native values line).Recodes recoding recoding.value
      (callNative host native (values.map recoding.value) line) := by
  rw [Exec.callNative, Exec.callNative]
  cases found : host.functions[native.id]? with
  | none => exact fun _ => rfl
  | some function =>
      simp only
      cases action : function.action with
      | readClock => exact fun _ => rfl
      | compute result =>
          have blind :=
            (discreet function (Array.mem_of_getElem? found)).blind result action recoding values
          simp only [blind]
          cases result values <;> exact fun _ => rfl

end Exec.Recodes

/-! ### Actions that track each other -/

namespace Merging

variable (recoding : Recoding) (merging : Merging)

/-- A value of one store and the same, recoded, in the other. -/
def Recoded (value other : Value) : Prop :=
  other = recoding.value (value.rename merging.into) ∧ value.Below merging.size

/-- A row of values of one store and the same, recoded, in the other. -/
def AllRecoded (values others : List Value) : Prop :=
  others = (values.map (·.rename merging.into)).map recoding.value ∧
    ∀ value ∈ values, value.Below merging.size

/-- How a statement ends in one store and the same, recoded, in the other. -/
inductive FlowRecoded : Flow → Flow → Prop where
  | normal : FlowRecoded .normal .normal
  | breaking (signal : Signal) : FlowRecoded (.breaking signal) (.breaking signal)
  | continuing (signal : Signal) : FlowRecoded (.continuing signal) (.continuing signal)
  | returning {value other} (same : merging.Recoded recoding value other) (line : Nat) :
      FlowRecoded (.returning value line) (.returning other line)

/-- Two outcomes that are the same, up to blank frames and the code of closures. -/
inductive SameRecoded {α β : Type} (same : Merging → α → β → Prop) :
    Outcome α → Outcome β → Prop where
  | done {later value other after middle} (grows : merging.Later later)
      (joins : later.Joins after middle)
      (holds : same later value other) :
        SameRecoded same (.done value after) (.done other (recoding.machine middle))
  | failed {later error after middle} (grows : merging.Later later)
      (joins : later.Joins after middle) :
      SameRecoded same (.failed error after) (.failed error (recoding.machine middle))

variable {recoding merging} {later : Merging} {value other : Value} {values others : List Value}

theorem SameRecoded.of_later {same : Merging → α → β → Prop} {outcome : Outcome α}
    {result : Outcome β} (grows : merging.Later later)
    (outcomes : later.SameRecoded recoding same outcome result) :
    merging.SameRecoded recoding same outcome result := by
  cases outcomes with
  | done more joins holds => exact .done (grows.trans more) joins holds
  | failed more joins => exact .failed (grows.trans more) joins

theorem Later.recoded (grows : merging.Later later) (same : merging.Recoded recoding value other) :
    later.Recoded recoding value other := by
  obtain ⟨rfl, below⟩ := same
  obtain ⟨renamed, below⟩ := grows.same ⟨rfl, below⟩
  exact ⟨congrArg recoding.value renamed, below⟩

theorem Later.allRecoded (grows : merging.Later later)
    (same : merging.AllRecoded recoding values others) :
    later.AllRecoded recoding values others := by
  obtain ⟨rfl, below⟩ := same
  obtain ⟨renamed, below⟩ := grows.sameAll ⟨rfl, below⟩
  exact ⟨congrArg (List.map recoding.value) renamed, below⟩

theorem allRecoded_cons (first : merging.Recoded recoding value other)
    (rest : merging.AllRecoded recoding values others) :
    merging.AllRecoded recoding (value :: values) (other :: others) := by
  obtain ⟨rfl, below⟩ := first
  obtain ⟨rfl, all⟩ := rest
  exact ⟨rfl, List.forall_mem_cons.mpr ⟨below, all⟩⟩

theorem recoded_of_plain (plain : PlainResult [] (.ok value)) :
    merging.Recoded recoding value value := by
  obtain ⟨renamed, below⟩ := merging.same_of_plain plain
  exact ⟨by rw [← renamed, recoding.value_of_plain plain], below⟩

namespace Recoded

variable {left right : Value} (same : merging.Recoded recoding value other)
include same

theorem isTruthy : other.isTruthy = value.isTruthy := by
  obtain ⟨rfl, -⟩ := same
  rw [(recoding.looks _).isTruthy, Value.isTruthy_rename]

theorem render : other.render = value.render := by
  obtain ⟨rfl, -⟩ := same
  rw [(recoding.looks _).render, Value.render_rename]

theorem unary (op : UnaryOp) : op.apply other = op.apply value := by
  obtain ⟨rfl, -⟩ := same
  rw [recoding.unary, op.apply_rename]

theorem binary (op : BinaryOp) (sameRight : merging.Recoded recoding left right) :
    op.apply other right = op.apply value left := by
  obtain ⟨rfl, -⟩ := same
  obtain ⟨rfl, -⟩ := sameRight
  rw [recoding.binary, op.apply_rename]

end Recoded

end Merging

/-- From machines that are the same up to blank frames and the code of closures, if one of two
actions ends with so much fuel, both end, and in the same way. -/
def Tracks (recoding : Recoding) (fuel : Nat) (merging : Merging) (same : Merging → α → β → Prop)
    (left : Nat → Exec α) (right : Nat → Exec β) : Prop :=
  ∀ before middle, merging.Joins before middle →
    left fuel before ≠ .outOfFuel ∨ right fuel (recoding.machine middle) ≠ .outOfFuel →
      ∃ outcome other, Ends left before outcome ∧ Ends right (recoding.machine middle) other ∧
        merging.SameRecoded recoding same outcome other

namespace Tracks

variable {recoding : Recoding} {fuel : Nat} {merging : Merging} {same : Merging → α → β → Prop}
  {sameNext : Merging → γ → δ → Prop} {left : Nat → Exec α} {right : Nat → Exec β}

theorem outOfFuel (starved : left fuel = Exec.outOfFuel)
    (starvedOther : right fuel = Exec.outOfFuel) :
    Tracks recoding fuel merging same left right := by
  intro before middle _ ends
  rw [starved, starvedOther] at ends
  rcases ends with apart | apart <;> exact absurd rfl apart

theorem pure {value : α} {result : β} (holds : same merging value result) :
    Tracks recoding fuel merging same (fun _ => (Pure.pure value : Exec α))
      (fun _ => (Pure.pure result : Exec β)) :=
  fun _ _ joins _ =>
    ⟨_, _, .const (by simp) rfl, .const (by simp) rfl, .done (.refl merging) joins holds⟩

theorem fail (error : RuntimeError) :
    Tracks recoding fuel merging same (fun _ => (Exec.fail error : Exec α))
      (fun _ => (Exec.fail error : Exec β)) :=
  fun _ _ joins _ =>
    ⟨_, _, .const (by rintro ⟨⟩) rfl, .const (by rintro ⟨⟩) rfl, .failed (.refl merging) joins⟩

/-- With one more unit of fuel, one more step can be taken. -/
theorem step
    (tracks : Tracks recoding fuel merging same (fun fuel => left (fuel + 1)) fun fuel =>
      right (fuel + 1)) :
    Tracks recoding (fuel + 1) merging same left right := by
  intro before middle joins ends
  obtain ⟨outcome, other, endsLeft, endsRight, outcomes⟩ := tracks before middle joins ends
  exact ⟨outcome, other, Ends.step.mp endsLeft, Ends.step.mp endsRight, outcomes⟩

/-- An action does the same in a store that lacks blank frames, and then in one with other code. -/
theorem of_agrees {action : Exec α} {between : Exec β} {other : Exec δ} {change : β → δ}
    {sameOther : Merging → α → δ → Prop} (agrees : action.Agrees merging same between)
    (recodes : between.Recodes recoding change other)
    (holds : ∀ later value result,
      same later value result → sameOther later value (change result)) :
    Tracks recoding fuel merging sameOther (fun _ => action) (fun _ => other) := by
  intro before middle joins ends
  have outcomes := agrees before middle joins
  have recoded := recodes middle
  revert ends
  generalize runLeft : action before = outcome at outcomes
  generalize runMiddle : between middle = result at outcomes recoded
  intro ends
  cases outcomes with
  | done grows joinsAfter same =>
      exact ⟨_, _, .const (by simp) runLeft, .const (by simp [Outcome.recode]) recoded,
        .done grows joinsAfter (holds _ _ _ same)⟩
  | failed grows joinsAfter =>
      exact ⟨_, _, .const (by simp) runLeft, .const (by simp [Outcome.recode]) recoded,
        .failed grows joinsAfter⟩
  | outOfFuel =>
      rcases ends with apart | apart
      · exact absurd runLeft apart
      · exact absurd recoded apart

/-- Where two actions in a row end, the second ends after the first. -/
theorem rest_ends {run : Nat → Exec α} {next : Nat → α → Exec γ} {before middle : Machine}
    {value : α} (steady : Steady run) (ends : (run fuel >>= next fuel) before ≠ .outOfFuel)
    (done : Ends run before (.done value middle)) : next fuel value middle ≠ .outOfFuel := by
  have run := (steady.ends (mt bind_outOfFuel ends)).unique done
  rwa [bind_done run] at ends

theorem bind {next : Nat → α → Exec γ} {nextOther : Nat → β → Exec δ} (steady : Steady left)
    (steadyOther : Steady right) (first : Tracks recoding fuel merging same left right)
    (rest : ∀ later value result, merging.Later later → same later value result →
      Tracks recoding fuel later sameNext (next · value) (nextOther · result)) :
    Tracks recoding fuel merging sameNext (fun fuel => left fuel >>= next fuel)
      (fun fuel => right fuel >>= nextOther fuel) := by
  intro before middle joins ends
  obtain ⟨outcome, result, endsLeft, endsRight, outcomes⟩ := first before middle joins
    (ends.imp (mt bind_outOfFuel) (mt bind_outOfFuel))
  cases outcomes with
  | failed grows joinsAfter =>
      exact ⟨_, _, endsLeft.bindFailed, endsRight.bindFailed, .failed grows joinsAfter⟩
  | done grows joinsAfter holds =>
      obtain ⟨last, lastOther, endsLast, endsLastOther, outcomes⟩ :=
        rest _ _ _ grows holds _ _ joinsAfter
          (ends.imp (rest_ends steady · endsLeft) (rest_ends steadyOther · endsRight))
      exact ⟨last, lastOther, endsLeft.bind endsLast, endsRight.bind endsLastOther,
        .of_later grows outcomes⟩

/-- A step that takes no fuel, and what comes after it. -/
theorem bindStep {action : Exec α} {other : Exec β} {next : Nat → α → Exec γ}
    {nextOther : Nat → β → Exec δ}
    (first : Tracks recoding fuel merging same (fun _ => action) fun _ => other)
    (rest : ∀ later value result, merging.Later later → same later value result →
      Tracks recoding fuel later sameNext (next · value) (nextOther · result)) :
    Tracks recoding fuel merging sameNext (fun fuel => action >>= next fuel)
      (fun fuel => other >>= nextOther fuel) :=
  .bind (.const action) (.const other) first rest

/-- Actions that track each other with whatever fuel end in the same ways. -/
theorem ends (tracks : ∀ fuel, Tracks recoding fuel merging same left right)
    {before middle : Machine} (joins : merging.Joins before middle) :
    (∀ outcome, Ends left before outcome →
      ∃ other, Ends right (recoding.machine middle) other ∧
        merging.SameRecoded recoding same outcome other) ∧
    ∀ other, Ends right (recoding.machine middle) other →
      ∃ outcome, Ends left before outcome ∧ merging.SameRecoded recoding same outcome other := by
  constructor
  · intro outcome ends
    obtain ⟨fuel, run⟩ : ∃ fuel, left fuel before = outcome :=
      ends.2.imp fun fuel all => all fuel (Nat.le_refl _)
    obtain ⟨found, other, endsLeft, endsRight, outcomes⟩ :=
      tracks fuel before middle joins (.inl (run ▸ ends.1))
    exact ⟨other, endsRight, ends.unique endsLeft ▸ outcomes⟩
  · intro other ends
    obtain ⟨fuel, run⟩ : ∃ fuel, right fuel (recoding.machine middle) = other :=
      ends.2.imp fun fuel all => all fuel (Nat.le_refl _)
    obtain ⟨outcome, found, endsLeft, endsRight, outcomes⟩ :=
      tracks fuel before middle joins (.inr (run ▸ ends.1))
    exact ⟨outcome, endsLeft, ends.unique endsRight ▸ outcomes⟩

/-- An operator gives a value without a frame and without code, so the same one. -/
theorem ofExcept {result : Except Fault Value} (line : Nat) (plain : PlainResult [] result) :
    Tracks recoding fuel merging (Merging.Recoded recoding) (fun _ => Exec.ofExcept line result)
      (fun _ => Exec.ofExcept line result) := by
  cases result with
  | ok value => exact .pure (recoded_of_plain plain)
  | error fault => exact .fail _

/-- An action that comes to no end comes to none in a call. -/
theorem nested_starves {action : Exec α} {machine : Machine} {limit line : Nat}
    (room : machine.callDepth < limit)
    (starved : action { machine with callDepth := machine.callDepth + 1 } = .outOfFuel) :
    Exec.nested limit line action machine = .outOfFuel := by
  rw [Exec.nested, if_neg (Nat.not_le_of_lt room), starved]
  rfl

theorem nested {left right : Nat → Exec Flow} {same : Merging → Flow → Flow → Prop}
    (steady : Steady left) (steadyOther : Steady right) (limit line : Nat)
    (tracks : Tracks recoding fuel merging same left right) :
    Tracks recoding fuel merging same (fun fuel => Exec.nested limit line (left fuel))
      (fun fuel => Exec.nested limit line (right fuel)) := by
  intro before middle joins ends
  have depth : middle.callDepth = before.callDepth := joins.callDepth
  by_cases full : limit ≤ before.callDepth
  · have fullOther : limit ≤ (recoding.machine middle).callDepth := depth ▸ full
    exact ⟨_, _, (Interpreter.nested_ends steady).mpr (.inl ⟨full, rfl⟩),
      (Interpreter.nested_ends steadyOther).mpr (.inl ⟨fullOther, rfl⟩),
      .failed (.refl merging) joins⟩
  · have room : before.callDepth < limit := Nat.lt_of_not_le full
    have roomOther : (recoding.machine middle).callDepth < limit := depth ▸ room
    have inside := ends.imp (mt (nested_starves room)) (mt (nested_starves roomOther))
    obtain ⟨outcome, other, endsLeft, endsRight, outcomes⟩ :=
      tracks _ _ (joins.counting (· + 1)) inside
    refine ⟨_, _, (Interpreter.nested_ends steady).mpr (.inr ⟨room, outcome, endsLeft, rfl⟩),
      (Interpreter.nested_ends steadyOther).mpr (.inr ⟨roomOther, other, endsRight, rfl⟩), ?_⟩
    cases outcomes with
    | done grows joinsAfter holds => exact .done grows (joinsAfter.counting (· - 1)) holds
    | failed grows joinsAfter => exact .failed grows (joinsAfter.counting (· - 1))

/-! ### Steps that track each other -/

section Steps

variable {ref place : FrameRef} (name : Name) (here : merging.At ref place)

theorem print (text : String) :
    Tracks recoding fuel merging (fun _ _ _ => True) (fun _ => Exec.print text)
      (fun _ => Exec.print text) :=
  .of_agrees (.print text) (.print text) fun _ _ _ _ => trivial

include here

theorem lookup :
    Tracks recoding fuel merging (Merging.Recoded recoding) (fun _ => Exec.lookup name ref)
    (fun _ => Exec.lookup name place) := by
  refine .of_agrees (.lookup name here) (.lookup name place) fun later value result same => ?_
  obtain ⟨rfl, below⟩ := same
  exact ⟨rfl, below⟩

theorem declare (kept : merging.Kept ref) :
    Tracks recoding fuel merging (fun _ _ _ => True) (fun _ => Exec.define ref name none)
      (fun _ => Exec.define place name none) :=
  .of_agrees (.define name here kept rfl (by simp)) (.define name place none) fun _ _ _ _ => trivial

theorem define (kept : merging.Kept ref) {value other : Value}
    (holds : merging.Recoded recoding value other) :
    Tracks recoding fuel merging (fun _ _ _ => True) (fun _ => Exec.define ref name (some value))
      (fun _ => Exec.define place name (some other)) := by
  obtain ⟨rfl, below⟩ := holds
  have given : ∀ given ∈ some value, given.Below merging.size := by
    rintro given ⟨⟩
    exact below
  exact .of_agrees (.define name here kept rfl given)
    (.define name place (some (value.rename merging.into)))
    fun _ _ _ _ => trivial

theorem assign {value other : Value} (holds : merging.Recoded recoding value other) :
    Tracks recoding fuel merging (fun _ _ _ => True) (fun _ => Exec.assign ref name value)
      (fun _ => Exec.assign place name other) := by
  obtain ⟨rfl, below⟩ := holds
  exact .of_agrees (.assign name here ⟨rfl, below⟩) (.assign name place _) fun _ _ _ _ => trivial

theorem newChild : Tracks recoding fuel merging
    (fun later inner innerOther => later.At inner innerOther ∧ later.Kept inner)
    (fun _ => Exec.newChild ref)
    (fun _ => Exec.newChild place) :=
  .of_agrees (.newChild here) (.newChild place) fun _ _ _ same => same

theorem makeClosure (decl : FunctionDecl) : Tracks recoding fuel merging
    (fun later made other =>
      later.Recoded recoding (.function (.closure made)) (.function (.closure other)))
    (fun _ => Exec.makeClosure decl ref)
    (fun _ => Exec.makeClosure (recoding.code decl) place) := by
  refine .of_agrees (.makeClosure decl here)
    (.makeClosure place decl) fun later made result same => ?_
  obtain ⟨renamed, below⟩ := same
  exact ⟨congrArg recoding.value renamed, below⟩

theorem bindParameters (kept : merging.Kept ref) (parameters : List Name)
    {values others : List Value} (holds : merging.AllRecoded recoding values others) :
    Tracks recoding fuel merging (fun _ _ _ => True)
      (fun _ => Exec.bindParameters ref parameters values)
      (fun _ => Exec.bindParameters place parameters others) := by
  obtain ⟨rfl, below⟩ := holds
  exact .of_agrees (.bindParameters parameters here kept ⟨rfl, below⟩)
    (.bindParameters place parameters _)
    fun _ _ _ _ => trivial

end Steps

theorem callNative {host : Host} (discreet : ∀ function ∈ host.functions, function.Discreet)
    (native : Native) (line : Nat) {values others : List Value}
    (holds : merging.AllRecoded recoding values others) :
    Tracks recoding fuel merging (Merging.Recoded recoding)
      (fun _ => Exec.callNative host native values line)
      (fun _ => Exec.callNative host native others line) := by
  obtain ⟨rfl, below⟩ := holds
  have oblivious : ∀ function ∈ host.functions, function.Oblivious := fun function member =>
    (discreet function member).oblivious
  refine .of_agrees (.callNative oblivious native line ⟨rfl, below⟩)
    (.callNative discreet native _ line)
    fun later value result same => ?_
  obtain ⟨rfl, below⟩ := same
  exact ⟨rfl, below⟩

end Tracks

end Lox
