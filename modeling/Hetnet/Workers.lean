import Hetnet.Capacity

/-!
# Tasks on a pool of workers

A run takes a list of inputs and works on each of them separately, every task with a
result of its own, so workers share nothing and the outputs do not depend on
how many there are or on who takes which task. They come in the order of the
inputs. A task that fails or crashes fails the whole run: no partial result is
returned.

If several tasks fail, the run comes back with one of their failures, and which one it
is depends on the order in which the workers happen to fail. Nothing is assumed
about it here. The choice is a parameter of the run, a `Reporting`, and two runs of the
same tasks may choose differently.
-/

namespace Hetnet

/-- A pool of a fixed number of workers. -/
structure WorkerPool where
  threads : Nat
  threads_pos : 0 < threads

namespace WorkerPool

/-- A pool of `threads` workers. -/
def create (threads : Nat) : Except Error WorkerPool :=
  if h : 0 < threads then
    .ok ⟨threads, h⟩
  else
    .error (.invalidParameter "threads" "must be greater than zero")

/-- A pool of one worker. -/
def single : WorkerPool := ⟨1, by decide⟩

/-- The form shown to a developer. -/
def inspect (pool : WorkerPool) : String :=
  s!"WorkerPool \x7b threads: {pool.threads} \x7d"

end WorkerPool

/-- The error that the failure of one task is for the run. -/
def Failure.inTask (index : Nat) : Failure → Error
  | .error cause => .workerFailed index cause
  | .crash message => .workerFailed index (.internal message)

/-- How a computation fails, if it does. -/
def failure? {ε β : Type} : Except ε β → Option ε
  | .ok _ => none
  | .error failure => some failure

/-- The choice of the failure that a run reports. All that is known of it is that a task
has failed this way. -/
structure Reporting where
  /-- The choice between the failures of the tasks, the first and the others in the order of
  the inputs. -/
  choose : Error → List Error → Error
  choose_mem : ∀ first others, choose first others ∈ first :: others

namespace Reporting

/-- The failing task with the lowest index is reported. -/
def lowest : Reporting := ⟨fun first _ => first, fun _ _ => List.mem_cons_self⟩

/-- What a run makes of the results of its tasks. -/
def collect {β : Type} (reports : Reporting) (results : List (Except Error β)) :
    Except Error (List β) :=
  match results.filterMap failure? with
  | first :: others => .error (reports.choose first others)
  | [] => .ok (results.filterMap Except.toOption)

end Reporting

/-- The results of a task for each input; a task is told the index of its input. -/
def taskResults {α β : Type} (task : Nat → α → Except Failure β) (inputs : List α) :
    List (Except Error β) :=
  inputs.zipIdx.map fun (input, index) => (task index input).mapError (Failure.inTask index)

/-- Runs a task on each input. -/
def runTasks {α β : Type} (task : Nat → α → Except Failure β) (inputs : List α)
    (reports : Reporting := .lowest) : Except Error (List β) :=
  reports.collect (taskResults task inputs)

/-- A range of positions, without its end. -/
structure Block where
  start : Nat
  stop : Nat
deriving DecidableEq, Inhabited

namespace Block

/-- Cuts the positions below `length` into `parts` consecutive blocks of equal size; the
last block also takes what the division leaves over. -/
def partition (length parts : Nat) : List Block :=
  let size := length / parts
  (List.range parts).map fun i =>
    { start := i * size, stop := if i + 1 = parts then length else i * size + size }

/-- The size of a block in a list of blocks. -/
def bytes : Nat := 16

end Block

end Hetnet
