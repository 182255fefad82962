import Lox.Proofs.Interpreter.Declarations
import Lox.Proofs.Interpreter.Escapes
import Lox.Proofs.Interpreter.Grounding
import Lox.Proofs.Interpreter.Rows
import Lox.Proofs.Store.Founding
import Mathlib.Logic.Relation

/-!
Interpreters in use.

A client of an interpreter begins with the frame of the global names and gets hold of more: frames
that it makes, parents of frames, values that are given back, and the frames of closures among them.
In the frames that it has it may have anything run, and it may bind names in them to values that it
has (`Client.Step`).

Whatever a client does, the frames stay well founded (`frames_founded`). All that it has exists;
parents are older than their children and never change; so from every frame one comes to an end
along parents, though along functions one may come back. The same is true at every moment while
something runs.
-/

namespace Lox

/-- The value that a statement returns. -/
def Flow.returned? : Flow → Option Value
  | .returning value _ => some value
  | .normal | .breaking _ | .continuing _ => none

/-- A frame in which a closure is bound binds it. -/
theorem Store.binds_define {store : Store} {ref : FrameRef} (inside : ref.index < store.frames.size)
    (name : String) (closure : Closure) :
    (store.define ref name (some (.function (.closure closure)))).Binds ref closure := by
  obtain ⟨frame, found⟩ := frame?_of_lt inside
  refine ⟨frame.insert name (.bound (.function (.closure closure))), name, ?_, ?_⟩
  · rw [frame?_define, found, Option.map_some, if_pos rfl]
    rfl
  · exact Frame.mem_of_find? (by rw [Frame.find?_insert, if_pos rfl])

namespace Interpreter

open Exec

variable {host : Host}

/-! ### Jobs -/

/-- What a client may have an interpreter run. -/
inductive Job where
  | interpret (program : List Stmt)
  | executeIn (program : List Stmt) (ref : FrameRef)
  | execute (stmt : Stmt) (ref : FrameRef)
  | evaluate (expr : Expr) (ref : FrameRef)

namespace Job

/-- The frame that the client gives for a job; a program may be run in one that is made for it. -/
def frame? : Job → Option FrameRef
  | .interpret _ => none
  | .executeIn _ ref | .execute _ ref | .evaluate _ ref => some ref

/-- Run a job, and give back the value of an expression or that a statement returns. -/
def run (host : Host) (fuel : Nat) : Job → Exec (Option Value)
  | .interpret program => do
    Interpreter.interpret host fuel program
    return none
  | .executeIn program ref => do
    Interpreter.executeIn host fuel program ref
    return none
  | .execute stmt ref => do
    let flow ← Interpreter.execute host fuel stmt ref
    return flow.returned?
  | .evaluate expr ref => do
    let value ← Interpreter.evaluate host fuel expr ref
    return some value

/-- What the evaluator is asked for first, and in which machine. -/
def start (machine : Machine) : Job → Task × Machine
  | .interpret program => (.executeAll program machine.store.nextRef,
      { machine with store := (machine.store.addChild globals).2, callDepth := 0 })
  | .executeIn program ref => (.executeAll program ref, { machine with callDepth := 0 })
  | .execute stmt ref => (.execute stmt ref, machine)
  | .evaluate expr ref => (.evaluate expr ref, machine)

theorem executeIn_grounds (grounded : ∀ function ∈ host.functions, function.Grounded) {size : Nat}
    (fuel : Nat) (program : List Stmt) {ref : FrameRef} (inside : ref.index < size) :
    (Interpreter.executeIn host fuel program ref).Grounds size fun _ _ => True := by
  have runs : (runProgram host fuel program ref).Grounds size fun _ _ => True := by
    refine .bind ((grounding grounded fuel).executeAll size program ref inside)
      fun more flow _ _ => ?_
    cases flow with
    | normal => exact .pure fun _ _ => trivial
    | breaking signal | continuing signal | returning value line => exact .fail _
  exact fun machine formed enough => runs { machine with callDepth := 0 } formed enough

/-- A job in a frame that exists gives back nothing that does not. -/
theorem grounds (grounded : ∀ function ∈ host.functions, function.Grounded) (job : Job) {size : Nat}
    (global : globals.index < size) (inside : ∀ ref ∈ job.frame?, ref.index < size) (fuel : Nat) :
    (job.run host fuel).Grounds size fun size value => ∀ given ∈ value, given.Below size := by
  have runs := grounding grounded fuel
  cases job with
  | interpret program =>
      have whole : (Interpreter.interpret host fuel program).Grounds size fun _ _ => True :=
        .bind (.newChild global) fun _ _ _ here => executeIn_grounds grounded fuel program here
      exact .bind whole fun _ _ _ _ => .pure (by simp)
  | executeIn program ref =>
      exact .bind (executeIn_grounds grounded fuel program (inside ref rfl)) fun _ _ _ _ =>
        .pure (by simp)
  | execute stmt ref =>
      refine .bind (runs.execute size stmt ref (inside ref rfl)) fun more flow _ below =>
        .pure fun _ le => ?_
      cases flow with
      | returning value line =>
          rintro given ⟨⟩
          exact Value.Below.of_le below le
      | normal | breaking signal | continuing signal => rintro given ⟨⟩
  | evaluate expr ref =>
      refine .bind (runs.evaluate size expr ref (inside ref rfl)) fun more value _ below =>
        .pure fun _ le => ?_
      rintro given ⟨⟩
      exact below.of_le le

/-- A job leaves all frames where they are, under their parents. -/
theorem run_extends (host : Host) (job : Job) (fuel : Nat) (machine : Machine) :
    (job.run host fuel machine).AllMachines fun after => machine.store.Extends after.store := by
  cases job with
  | interpret program =>
      have made := Store.extends_addFrame machine.store (some globals)
      have runs := grows_executeIn host fuel program machine.store.nextRef
        { machine with store := (machine.store.addChild globals).2 }
      exact allMachines_bind (runs.imp fun _ grows => made.trans grows.extends)
        fun _ _ _ sofar => sofar
  | executeIn program ref =>
      have runs := grows_executeIn host fuel program ref machine
      exact allMachines_bind (runs.imp fun _ grows => grows.extends) fun _ _ _ sofar => sofar
  | execute stmt ref =>
      have runs := (grown_runs host fuel).execute stmt ref machine
      exact allMachines_bind (runs.imp fun _ grows => grows.extends) fun _ _ _ sofar => sofar
  | evaluate expr ref =>
      have runs := (grown_runs host fuel).evaluate expr ref machine
      exact allMachines_bind (runs.imp fun _ grows => grows.extends) fun _ _ _ sofar => sofar

/-- What a job begins with is about frames that are there then. -/
theorem start_grounded (job : Job) {machine : Machine} (formed : machine.store.WellFormed)
    (global : globals.index < machine.store.frames.size)
    (inside : ∀ ref ∈ job.frame?, ref.index < machine.store.frames.size) :
    (job.start machine).2.store.WellFormed ∧
    (job.start machine).1.Below (job.start machine).2.store.frames.size ∧
      machine.store.Extends (job.start machine).2.store := by
  cases job with
  | interpret program =>
      obtain ⟨formed, -, here⟩ := (Exec.Grounds.newChild global).of_done formed (Nat.le_refl _) rfl
      exact ⟨formed, here, Store.extends_addFrame _ _⟩
  | executeIn program ref => exact ⟨formed, inside ref rfl, .refl _⟩
  | execute stmt ref => exact ⟨formed, inside ref rfl, .refl _⟩
  | evaluate expr ref => exact ⟨formed, inside ref rfl, .refl _⟩

end Job

/-! ### Clients -/

/-- What the user of an interpreter has: its machine, and the frames and values that it has got from
it. -/
structure Client where
  machine : Machine
  frames : List FrameRef
  values : List Value

namespace Client

/-- With a new interpreter one has the frame of the global names. -/
def start (interpreter : Interpreter) : Client := ⟨interpreter.machine, [globals], []⟩

/-- A client has a value, or can make it: closures cannot be made up. -/
def Has (client : Client) (value : Value) : Prop :=
  ∀ closure, value = .function (.closure closure) → value ∈ client.values

/-- The same client with another store. -/
def withStore (client : Client) (store : Store) : Client :=
  { client with machine := { client.machine with store } }

/-- What a client may do. -/
inductive Step (host : Host) (client : Client) : Client → Prop where
  /-- Have a job done. -/
  | ran {job : Job} {fuel : Nat} {value : Option Value} {after : Machine}
      (known : ∀ ref ∈ job.frame?, ref ∈ client.frames)
      (run : job.run host fuel client.machine = .done value after) :
      Step host client { client with machine := after, values := value.toList ++ client.values }
  /-- Have a job run that fails. -/
  | failed {job : Job} {fuel : Nat} {error : RuntimeError} {after : Machine}
      (known : ∀ ref ∈ job.frame?, ref ∈ client.frames)
      (run : job.run host fuel client.machine = .failed error after) :
      Step host client { client with machine := after }
  /-- Take away what was printed. -/
  | drained : Step host client { client with machine := { client.machine with printed := #[] } }
  /-- Make a frame under another, or under none. -/
  | opened {parent : Option FrameRef} (known : ∀ ref ∈ parent, ref ∈ client.frames) :
      Step host client { client.withStore (client.machine.store.addFrame parent).2 with
        frames := client.machine.store.nextRef :: client.frames }
  /-- Take the parent of a frame. -/
  | climbed {ref parent : FrameRef} (known : ref ∈ client.frames)
      (up : client.machine.store.parent? ref = some parent) :
      Step host client { client with frames := parent :: client.frames }
  /-- Take the frame of a closure. -/
  | entered {closure : Closure} (known : .function (.closure closure) ∈ client.values) :
      Step host client { client with frames := closure.scope :: client.frames }
  /-- Make a closure over a frame. -/
  | enclosed {decl : FunctionDecl} {scope : FrameRef} (known : scope ∈ client.frames) :
      Step host client { client.withStore (client.machine.store.makeClosure decl scope).2 with
        values :=
          .function (.closure (client.machine.store.makeClosure decl scope).1) :: client.values }
  /-- Bind a name, or declare it without a value. -/
  | defined {ref : FrameRef} {name : String} {value : Option Value} (known : ref ∈ client.frames)
      (given : ∀ held ∈ value, client.Has held) :
      Step host client (client.withStore (client.machine.store.define ref name value))
  /-- Give a name another value. -/
  | assigned {ref : FrameRef} {name : String} {value : Value} {after : Store}
      (known : ref ∈ client.frames)
      (given : client.Has value) (done : client.machine.store.assign ref name value = .ok after) :
      Step host client (client.withStore after)

/-- What a client may come to. -/
def Reaches (host : Host) : Client → Client → Prop :=
  Relation.ReflTransGen (Step host)

/-- The store of a client is well-formed, and what the client has is in it. -/
structure Sound (client : Client) : Prop where
  formed : client.machine.store.WellFormed
  global : globals.index < client.machine.store.frames.size
  frames : ∀ ref ∈ client.frames, ref.index < client.machine.store.frames.size
  values : ∀ value ∈ client.values, value.Below client.machine.store.frames.size

namespace Sound

variable {client : Client}

theorem has {value : Value} (sound : client.Sound) (given : client.Has value) :
    value.Below client.machine.store.frames.size :=
  fun closure same => sound.values value (given closure same) closure same

/-- A client keeps what it has when the store grows. -/
theorem grow (sound : client.Sound) {machine : Machine} (formed : machine.store.WellFormed)
    (more : client.machine.store.frames.size ≤ machine.store.frames.size) :
    Sound { client with machine := machine } where
  formed := formed
  global := Nat.lt_of_lt_of_le sound.global more
  frames ref member := Nat.lt_of_lt_of_le (sound.frames ref member) more
  values value member := (sound.values value member).of_le more

theorem take (sound : client.Sound) {ref : FrameRef}
    (inside : ref.index < client.machine.store.frames.size) :
    Sound { client with frames := ref :: client.frames } :=
  { sound with frames := List.forall_mem_cons.mpr ⟨inside, sound.frames⟩ }

theorem receive (sound : client.Sound) {value : Option Value}
    (below : ∀ given ∈ value, given.Below client.machine.store.frames.size) :
    Sound { client with values := value.toList ++ client.values } :=
  { sound with
    values := by
      intro held member
      rcases List.mem_append.mp member with new | old
      · exact below held (Option.mem_toList.mp new)
      · exact sound.values held old }

theorem define (sound : client.Sound) (ref : FrameRef) (name : String) {value : Option Value}
    (below : ∀ given ∈ value, given.Below client.machine.store.frames.size) :
    (client.withStore (client.machine.store.define ref name value)).Sound := by
  refine sound.grow (sound.formed.define ref name below) ?_
  exact Nat.le_of_eq (Store.size_define name value).symm

theorem start (functions : List HostFunction) (clock : Nat → Float) (limit : Nat) :
    (Client.start (build functions clock limit)).Sound := by
  have global : globals.index < (build functions clock limit).machine.store.frames.size := by
    obtain ⟨frame, found, -⟩ := globalNames_build functions clock limit
    exact Store.lt_size found
  exact ⟨wellFormed_build functions clock limit, global, List.forall_mem_singleton.mpr global,
    by simp [Client.start]⟩

end Sound

variable {client next : Client}

/-- No step makes a frame go or changes its parent. -/
theorem Step.extends (step : Step host client next) :
    client.machine.store.Extends next.machine.store := by
  cases step with
  | @ran job fuel value after known run =>
      have kept := job.run_extends host fuel client.machine
      rw [run] at kept
      exact kept
  | @failed job fuel error after known run =>
      have kept := job.run_extends host fuel client.machine
      rw [run] at kept
      exact kept
  | drained | climbed _ _ | entered _ | enclosed _ => exact .refl _
  | opened known => exact Store.extends_addFrame _ _
  | defined known given => exact Store.extends_define _ _ _ _
  | assigned known given done =>
      obtain ⟨owner, rfl⟩ := Store.eq_define_of_assign done
      exact Store.extends_define _ owner _ _

theorem Step.sound (grounded : ∀ function ∈ host.functions, function.Grounded)
    (step : Step host client next) (sound : client.Sound) : next.Sound := by
  cases step with
  | @ran job fuel value after known run =>
      have runs :=
        job.grounds grounded sound.global
          (fun ref member => sound.frames ref (known ref member)) fuel
      obtain ⟨formed, more, below⟩ := runs.of_done sound.formed (Nat.le_refl _) run
      exact (sound.grow formed more).receive below
  | @failed job fuel error after known run =>
      -- Nothing is given back, but what was done before the failure stays done.
      have runs :=
        job.grounds grounded sound.global
          (fun ref member => sound.frames ref (known ref member)) fuel
      have ended := runs client.machine sound.formed (Nat.le_refl _)
      rw [run] at ended
      exact sound.grow ended.1 ended.2
  | drained => exact ⟨sound.formed, sound.global, sound.frames, sound.values⟩
  | @opened parent known =>
      have formed := sound.formed.addFrame fun ref member => sound.frames ref (known ref member)
      have grown : (client.withStore (client.machine.store.addFrame parent).2).Sound :=
        sound.grow formed (by simp)
      exact grown.take (by simp [withStore, Store.nextRef])
  | @climbed ref parent known up =>
      obtain ⟨frame, found⟩ := Store.frame?_of_lt (sound.frames ref known)
      rw [Store.parent?, Store.frame, found] at up
      exact sound.take
        (Nat.lt_trans (sound.formed.older ref frame parent found up) (Store.lt_size found))
  | entered known => exact sound.take (sound.values _ known _ rfl)
  | @enclosed decl scope known =>
      refine ⟨⟨sound.formed.older, sound.formed.scopes⟩, sound.global, sound.frames, ?_⟩
      refine List.forall_mem_cons.mpr ⟨?_, sound.values⟩
      rintro closure ⟨⟩
      exact sound.frames scope known
  | defined known given => exact sound.define _ _ fun held member => sound.has (given held member)
  | assigned known given done =>
      obtain ⟨owner, rfl⟩ := Store.eq_define_of_assign done
      exact sound.define owner _ fun held same => Option.some.inj same ▸ sound.has given

theorem Reaches.extends (reaches : Reaches host client next) :
    client.machine.store.Extends next.machine.store := by
  induction reaches with
  | refl => exact .refl _
  | tail _ step ih => exact ih.trans step.extends

theorem Reaches.sound (grounded : ∀ function ∈ host.functions, function.Grounded)
    (reaches : Reaches host client next) (sound : client.Sound) : next.Sound := by
  induction reaches with
  | refl => exact sound
  | tail _ step ih => exact step.sound grounded ih

/-- A function that is declared in a frame is bound there, and has that frame around it. -/
theorem declares_around (sound : client.Sound) {ref : FrameRef} (known : ref ∈ client.frames) :
    ∃ next closure, Step host client next ∧ next.machine.store.Binds ref closure ∧
      closure.scope = ref := by
  let decl : FunctionDecl := ⟨⟨"around", 1⟩, [], []⟩
  let job : Job := .execute (.function decl.name decl.parameters decl.body) ref
  let made := client.machine.store.makeClosure decl ref
  let after : Machine :=
    { client.machine with store := made.2.define ref "around" (some (.function (.closure made.1))) }
  have run : job.run host 1 client.machine = .done none after := rfl
  refine ⟨_, made.1, .ran ?_ run, Store.binds_define (sound.frames ref known) _ _, rfl⟩
  rintro _ ⟨⟩
  exact known

end Client

theorem grounded_build {functions : List HostFunction}
    (grounded : ∀ function ∈ functions, function.Grounded) (clock : Nat → Float) (limit : Nat) :
    ∀ function ∈ (build functions clock limit).host.functions, function.Grounded := by
  intro function member
  rcases List.mem_cons.mp (List.mem_toArray.mp member) with rfl | member
  · rintro _ _ _ _ ⟨⟩
  · exact grounded function member

/-- **The frames stay well founded.** Whatever is done with a new interpreter and what one has got
from it: the store is well founded, and all frames and values that one has are in it. No frame goes
or gets another parent in all that may follow. While something is run in one of the frames, whether
that ever ends or not, the same is true at every moment, of all that is run and of all values that
are passed on. That frames are referred to by functions makes no difference to this, though from
each frame one can come back to it through a function. -/
theorem frames_founded {functions : List HostFunction} {clock : Nat → Float} {limit : Nat}
    (grounded : ∀ function ∈ functions, function.Grounded) {client : Client}
    (reached : Client.Reaches (build functions clock limit).host
      (.start (build functions clock limit)) client) :
    client.Sound ∧ client.machine.store.Founded ∧
    (∀ later, Client.Reaches (build functions clock limit).host client later →
      client.machine.store.Extends later.machine.store) ∧
    (∀ job : Job, (∀ ref ∈ job.frame?, ref ∈ client.frames) → ∀ calls next after,
      Course (build functions clock limit).host calls (job.start client.machine).1
        (job.start client.machine).2 next
        after →
      after.store.Founded ∧ next.Below after.store.frames.size ∧
      client.machine.store.Extends after.store ∧
        ∀ more last later, Course (build functions clock limit).host more next after last later →
          after.store.Extends later.store) ∧
    ∀ ref ∈ client.frames,
      ∃ later closure, Client.Step (build functions clock limit).host client later ∧
      later.machine.store.Binds ref closure ∧ closure.scope = ref := by
  have hosted := grounded_build grounded clock limit
  have sound := reached.sound hosted (.start functions clock limit)
  refine ⟨sound, sound.formed.founded, fun later reaches => reaches.extends, ?_,
    fun ref known => Client.declares_around sound known⟩
  intro job known calls next after course
  -- A job begins about frames that are there, and its course keeps to them.
  obtain ⟨formed, below, begun⟩ :=
    job.start_grounded sound.formed sound.global fun ref member =>
      sound.frames ref (known ref member)
  obtain ⟨formed, below⟩ := course.grounds hosted formed below
  exact ⟨formed.founded, below, begun.trans course.grows.extends, fun more last later rest =>
    rest.grows.extends⟩

/-- A function of the host that gives back what it is given. -/
def keep : HostFunction := ⟨"keep", 1, .compute fun arguments => .ok (arguments.headD .nil)⟩

theorem grounded_keep : keep.Grounded := by
  rintro _ size (_ | ⟨first, rest⟩) value ⟨⟩ all ⟨⟩
  · exact Value.below_of_ne (by rintro _ ⟨⟩)
  · exact all first List.mem_cons_self

/-- A function that gives back itself. -/
def knot : FunctionDecl := ⟨⟨"knot", 1⟩, [], [.returning 1 (.variable ⟨"knot", 1⟩)]⟩

/-- A function that declares that one and gives it back. -/
def tie : FunctionDecl :=
  ⟨⟨"tie", 1⟩, [],
    [.function knot.name knot.parameters knot.body, .returning 1 (.variable ⟨"knot", 1⟩)]⟩

/-- Declare the second function, call it, and keep by way of the host what it gives back. -/
def tying : List Stmt :=
  [.function tie.name tie.parameters tie.body,
    .define ⟨"kept", 1⟩
      (some (.call (.variable ⟨"keep", 1⟩) [.call (.variable ⟨"tie", 1⟩) [] 1] 1))]

/-- What is kept: the first function, with the frame of the call around it. -/
def knotted : Closure := ⟨1, knot, ⟨2⟩⟩

/-- What a run in frame 1 leaves: the frame of the call, which is frame 2, binds the function around
which it is. -/
def tied : Store :=
  ⟨#[(build [keep] (fun _ => 0) 4).machine.store.frame globals,
    ⟨[("kept", .bound (.function (.closure knotted))),
      ("tie", .bound (.function (.closure ⟨0, tie, ⟨1⟩⟩)))],
      some globals⟩,
    ⟨[("knot", .bound (.function (.closure knotted)))], some ⟨1⟩⟩], 2⟩

/-- A client runs this in a frame of its own, reads the variable, and goes into the frame of the
function that it finds there. From that frame one comes back to it through the function, but not
along parents. -/
theorem frames_founded_knot :
    let interpreter := build [keep] (fun _ => 0) 4
    let client : Client := ⟨⟨tied, 0, #[], 0⟩, [⟨2⟩, ⟨1⟩, globals], [.function (.closure knotted)]⟩
    (∀ function ∈ [keep], function.Grounded) ∧
      Client.Reaches interpreter.host (.start interpreter) client ∧
      tied.Binds ⟨2⟩ knotted ∧ knotted.scope = ⟨2⟩ ∧ tied.Chain ⟨2⟩ [⟨2⟩, ⟨1⟩, globals] ∧
      client.Sound ∧ tied.Founded := by
  intro interpreter client
  let begun := Client.start interpreter
  let opened : Client := { begun.withStore (begun.machine.store.addFrame (some globals)).2 with
    frames := [⟨1⟩, globals] }
  have own : ∀ ref ∈ some (⟨1⟩ : FrameRef), ref ∈ opened.frames := by
    rintro _ ⟨⟩
    exact List.mem_cons_self
  have opens : Client.Step interpreter.host begun opened :=
    .opened (by rintro _ ⟨⟩; exact List.mem_cons_self)
  have ties : Client.Step interpreter.host opened
      { client with frames := [⟨1⟩, globals], values := [] } :=
    @Client.Step.ran _ _ (.executeIn tying ⟨1⟩) 20 none _ own rfl
  have reads : Client.Step interpreter.host { client with frames := [⟨1⟩, globals], values := [] }
      { client with frames := [⟨1⟩, globals] } :=
    @Client.Step.ran _ _ (.evaluate (.variable ⟨"kept", 1⟩) ⟨1⟩) 1
      (some (.function (.closure knotted))) _ own rfl
  have enters : Client.Step interpreter.host { client with frames := [⟨1⟩, globals] } client :=
    @Client.Step.entered _ _ knotted List.mem_cons_self
  have reached : Client.Reaches interpreter.host begun client :=
    .tail (.tail (.tail (.single opens) ties) reads) enters
  have grounded : ∀ function ∈ [keep], function.Grounded :=
    List.forall_mem_singleton.mpr grounded_keep
  obtain ⟨sound, founded, -⟩ := frames_founded grounded reached
  have bound : tied.Binds ⟨2⟩ knotted := ⟨_, "knot", rfl, List.mem_cons_self⟩
  exact ⟨grounded, reached, bound, rfl, .child rfl rfl (.child rfl rfl (.root rfl rfl)),
    sound, founded⟩

end Interpreter

end Lox
