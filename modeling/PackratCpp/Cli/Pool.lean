/-
  Workers that share a list of files.

  * `Pool`: the workers, what each has done, and the first index that none has fetched.
  * `Pool.step`: one worker goes on.  It fetches the next index; or deals with the file
    that it has fetched, or stops if there is none.
  * `Pool.run`: a schedule, which is a list of the workers that go on.
  * `Pool.results`: what has been done, in the order of the files.
-/

namespace PackratCpp.Cli

/-- What a worker is at. -/
inductive WorkerPhase where
  | ready
  /-- It has fetched an index. -/
  | fetched (index : Nat)
  | stopped
  deriving DecidableEq

/-- A worker. -/
structure Worker (ρ : Type) where
  phase : WorkerPhase
  /-- Indices of files with the results, in the order of work. -/
  done : List (Nat × ρ)

/-- Workers that share a list of files. -/
structure Pool (ρ : Type) where
  /-- The first index that no worker has fetched. -/
  next : Nat
  workers : List (Worker ρ)

namespace Pool

variable {α ρ : Type}

/-- Workers that have done nothing. -/
def start (jobs : Nat) : Pool ρ :=
  ⟨0, List.replicate jobs ⟨.ready, []⟩⟩

/-- Worker `w` goes on. -/
def step (files : List α) (work : α → ρ) (p : Pool ρ) (w : Nat) : Pool ρ :=
  match p.workers[w]? with
  | none => p
  | some worker =>
    match worker.phase with
    | .stopped => p
    | .ready =>
      ⟨p.next + 1, p.workers.set w { worker with phase := .fetched p.next }⟩
    | .fetched index =>
      match files[index]? with
      | none => { p with workers := p.workers.set w { worker with phase := .stopped } }
      | some file =>
        { p with workers := p.workers.set w ⟨.ready, worker.done ++ [(index, work file)]⟩ }

/-- The workers of a schedule go on, one after the other. -/
def run (files : List α) (work : α → ρ) (p : Pool ρ) (schedule : List Nat) : Pool ρ :=
  schedule.foldl (step files work) p

/-- Whether every worker has stopped. -/
def isFinished (p : Pool ρ) : Bool :=
  p.workers.all fun worker => worker.phase = .stopped

/-- What has been done, in the order of the files. -/
def results (p : Pool ρ) : List ρ :=
  ((p.workers.flatMap (·.done)).mergeSort fun a b => a.1 ≤ b.1).map (·.2)

/-- Every worker in turn, often enough for one of them to do all the work. -/
def turns (jobs files : Nat) : List Nat :=
  (List.replicate (2 * files + 2) (List.range jobs)).flatten

end Pool

/-- The results for some files, with some workers that go on in turn. -/
def workThrough {α ρ : Type} (jobs : Nat) (files : List α) (work : α → ρ) : List ρ :=
  ((Pool.start jobs).run files work (Pool.turns jobs files.length)).results

end PackratCpp.Cli
