/-
  Workers that share a list of files.

  * `Worker.Goes`: what a worker does when it goes on.  `Pool.step_goes`: this, and nothing else, is
    what a step does to a pool.
  * `Worker.held`: the files that a worker answers for.  `Pool.Accounts`: each index that has been
    fetched is answered for by one worker, once, and each result is that of its file.
    `Pool.run_accounts`: so it is after every schedule.
  * `Pool.results_eq`: when all workers have stopped, the results are those of the files, in order.
  * `Pool.isFinished_run`: they have, once each of them has gone on often enough.
  * `CheckRequest.run_scheduled`: what a check of some files comes to depends neither on the number of
    workers nor on the schedule.
-/
import PackratCpp.Cli.Run
import PackratCpp.Proofs.Standard

namespace PackratCpp.Cli

variable {α ρ : Type} {files : List α} {work : α → ρ}

/-! ## One worker -/

namespace Worker

/-- What a worker does when it goes on, where `next` is the first index that none has fetched. -/
inductive Goes (files : List α) (work : α → ρ) (next : Nat) : Worker ρ → Nat → Worker ρ → Prop
  | rest {done} : Goes files work next ⟨.stopped, done⟩ next ⟨.stopped, done⟩
  | fetch {done} : Goes files work next ⟨.ready, done⟩ (next + 1) ⟨.fetched next, done⟩
  | deal {done index file} : files[index]? = some file →
      Goes files work next ⟨.fetched index, done⟩ next ⟨.ready, done ++ [(index, work file)]⟩
  | stop {done index} : files[index]? = none →
      Goes files work next ⟨.fetched index, done⟩ next ⟨.stopped, done⟩

/-- The files that a worker answers for: those that it has dealt with, and the one that it has
fetched, if there is one with this index. -/
def held (count : Nat) (w : Worker ρ) : List Nat :=
  w.done.map (·.1) ++
    match w.phase with
    | .fetched index => if index < count then [index] else []
    | _ => []

/-- How often a worker has gone on: twice for each file, and at last to find that there is none. -/
def turns (w : Worker ρ) : Nat :=
  2 * w.done.length +
    match w.phase with
    | .ready => 0
    | .fetched _ => 1
    | .stopped => 2

/-- What a worker has done and fetched is right, where `next` is the first index that none has
fetched. -/
structure Sound (files : List α) (work : α → ρ) (next : Nat) (w : Worker ρ) : Prop where
  done : ∀ entry ∈ w.done, files[entry.1]?.map work = some entry.2
  fetched : ∀ index, w.phase = .fetched index → index < next
  stopped : w.phase = .stopped → files.length ≤ next

variable {next next' : Nat} {w w' : Worker ρ}

theorem Sound.mono (h : w.Sound files work next) (hle : next ≤ next') :
    w.Sound files work next' :=
  ⟨h.done, fun index hi => Nat.lt_of_lt_of_le (h.fetched index hi) hle,
    fun hs => Nat.le_trans (h.stopped hs) hle⟩

namespace Goes

theorem next_le (h : Goes files work next w next' w') : next ≤ next' := by
  cases h with
  | fetch => exact Nat.le_succ next
  | rest | deal | stop => exact Nat.le_refl next

theorem sound (h : Goes files work next w next' w') (hw : w.Sound files work next) :
    w'.Sound files work next' := by
  cases h with
  | rest => exact hw
  | fetch => exact ⟨hw.done, fun index hi => by cases hi; exact Nat.lt_succ_self _, nofun⟩
  | @deal done index file hfile =>
    refine ⟨fun entry he => ?_, nofun, nofun⟩
    rcases List.mem_append.1 he with he | he
    · exact hw.done entry he
    · rw [List.mem_singleton.1 he, hfile, Option.map_some]
  | stop hfile =>
    have hlt := hw.fetched _ rfl
    have hge := List.getElem?_eq_none_iff.1 hfile
    exact ⟨hw.done, nofun, fun _ => by omega⟩

theorem held_eq (h : Goes files work next w next' w') : ∃ fresh,
    w'.held files.length = w.held files.length ++ fresh ∧
      List.range (min next' files.length) = List.range (min next files.length) ++ fresh := by
  cases h with
  | rest => exact ⟨[], by simp, by simp⟩
  | fetch =>
    by_cases hlt : next < files.length
    · have hmin : min (next + 1) files.length = next + 1 := by omega
      have hmin' : min next files.length = next := by omega
      exact ⟨[next], by simp [held, hlt], by rw [hmin, hmin', List.range_succ]⟩
    · have hmin : min (next + 1) files.length = min next files.length := by omega
      exact ⟨[], by simp [held, hlt], by rw [hmin, List.append_nil]⟩
  | @deal done index file hfile =>
    have hlt := (List.getElem?_eq_some_iff.1 hfile).1
    exact ⟨[], by simp [held, hlt], by simp⟩
  | @stop done index hfile =>
    have hge := List.getElem?_eq_none_iff.1 hfile
    exact ⟨[], by simp [held, Nat.not_lt.2 hge], by simp⟩

theorem turns_eq (h : Goes files work next w next' w') (hw : w.phase ≠ .stopped) :
    w'.turns = w.turns + 1 := by
  cases h with
  | rest => exact absurd rfl hw
  | fetch => rfl
  | deal => simp only [turns, List.length_append, List.length_singleton]; omega
  | stop => rfl

theorem eq_of_stopped (h : Goes files work next w next' w') (hw : w.phase = .stopped) :
    w' = w := by
  cases h with
  | rest => rfl
  | fetch | deal | stop => cases hw

end Goes

end Worker

/-! ## All workers -/

theorem flatMap_set_perm {β γ : Type} {f : β → List γ} {l : List β} {i : Nat} {a b : β}
    {fresh : List γ} (hi : l[i]? = some a) (hb : f b = f a ++ fresh) :
    ((l.set i b).flatMap f).Perm (l.flatMap f ++ fresh) := by
  induction l generalizing i with
  | nil => cases hi
  | cons c l ih =>
    cases i with
    | zero =>
      cases hi
      rw [List.set_cons_zero, List.flatMap_cons, List.flatMap_cons, hb, List.append_assoc,
        List.append_assoc]
      exact List.perm_append_comm.append_left _
    | succ i =>
      rw [List.set_cons_succ, List.flatMap_cons, List.flatMap_cons, List.append_assoc]
      exact (ih hi).append_left _

theorem map_snd_mergeSort {entries : List (Nat × ρ)}
    (hindices : (entries.map (·.1)).Perm (List.range files.length))
    (hentries : ∀ entry ∈ entries, files[entry.1]?.map work = some entry.2) :
    (entries.mergeSort fun a b => a.1 ≤ b.1).map (·.2) = files.map work := by
  set sorted := entries.mergeSort fun a b => a.1 ≤ b.1 with hsorted
  have hsame : sorted.Perm entries := List.mergeSort_perm ..
  have hordered : sorted.Pairwise fun a b => a.1 ≤ b.1 := by
    have h := @List.pairwise_mergeSort _ (fun a b : Nat × ρ => decide (a.1 ≤ b.1))
      (fun a b c hab hbc => by simp only [decide_eq_true_eq] at *; omega)
      (fun a b => by simp only [Bool.or_eq_true, decide_eq_true_eq]; omega) entries
    simpa using h
  have hrange : sorted.map (·.1) = List.range files.length :=
    List.Perm.eq_of_pairwise' (List.pairwise_map.2 hordered) List.pairwise_le_range
      ((hsame.map _).trans hindices)
  -- the entry at each place is the one of the file at this place
  refine List.ext_getElem? fun i => ?_
  have hi := congrArg (·[i]?) hrange
  rw [List.getElem?_map, List.getElem?_map]
  simp only [List.getElem?_map] at hi
  cases he : sorted[i]? with
  | none =>
    rw [he, Option.map_none, eq_comm, List.getElem?_eq_none_iff, List.length_range] at hi
    rw [List.getElem?_eq_none hi]
    rfl
  | some entry =>
    rw [he, Option.map_some, eq_comm, List.getElem?_eq_some_iff] at hi
    obtain ⟨hlt, hindex⟩ := hi
    rw [List.getElem_range] at hindex
    rw [hindex, hentries entry (hsame.mem_iff.1 (List.mem_of_getElem? he))]
    rfl

namespace Pool

variable {p : Pool ρ} {w : Nat} {worker : Worker ρ}

variable (files work) in
/-- **A step is one worker going on.** -/
theorem step_goes (hw : p.workers[w]? = some worker) : ∃ next' worker',
    worker.Goes files work p.next next' worker' ∧
      p.step files work w = ⟨next', p.workers.set w worker'⟩ := by
  obtain ⟨phase, done⟩ := worker
  cases phase with
  | stopped =>
    obtain ⟨hlt, heq⟩ := List.getElem?_eq_some_iff.1 hw
    have hsame : p.workers.set w ⟨.stopped, done⟩ = p.workers := by
      rw [← heq, List.set_getElem_self]
    exact ⟨_, _, .rest, by simp only [step, hw, hsame]⟩
  | ready => exact ⟨_, _, .fetch, by simp only [step, hw]⟩
  | fetched index =>
    cases hfile : files[index]? with
    | none => exact ⟨_, _, .stop hfile, by simp only [step, hw, hfile]⟩
    | some file => exact ⟨_, _, .deal hfile, by simp only [step, hw, hfile]⟩

theorem step_of_none (hw : p.workers[w]? = none) : p.step files work w = p := by
  simp only [step, hw]

/-- Each index that has been fetched is answered for by one worker, once, and what the workers have
done and fetched is right. -/
structure Accounts (files : List α) (work : α → ρ) (p : Pool ρ) : Prop where
  held : (p.workers.flatMap (Worker.held files.length)).Perm
    (List.range (min p.next files.length))
  sound : ∀ worker ∈ p.workers, worker.Sound files work p.next

theorem accounts_start (jobs : Nat) : (start jobs : Pool ρ).Accounts files work where
  held := by simp [start, Worker.held, List.flatMap_replicate]
  sound worker hm := by
    rw [List.eq_of_mem_replicate hm]
    exact ⟨nofun, nofun, nofun⟩

theorem Accounts.step (h : p.Accounts files work) (w : Nat) :
    (p.step files work w).Accounts files work := by
  cases hw : p.workers[w]? with
  | none => rwa [step_of_none hw]
  | some worker =>
    obtain ⟨next', worker', hgoes, hstep⟩ := step_goes files work hw
    have hm : worker ∈ p.workers := List.mem_of_getElem? hw
    rw [hstep]
    constructor
    case held =>
      obtain ⟨fresh, hheld, hrange⟩ := hgoes.held_eq
      rw [hrange]
      exact (flatMap_set_perm hw hheld).trans (h.held.append_right fresh)
    case sound =>
      intro other ho
      rcases List.mem_or_eq_of_mem_set ho with ho | rfl
      · exact (h.sound other ho).mono hgoes.next_le
      · exact hgoes.sound (h.sound worker hm)

/-- **Every schedule keeps the accounts.** -/
theorem run_accounts (h : p.Accounts files work) (schedule : List Nat) :
    (p.run files work schedule).Accounts files work := by
  induction schedule generalizing p with
  | nil => exact h
  | cons w schedule ih => exact ih (h.step w)

/-! ### When all have stopped -/

theorem isFinished_iff : p.isFinished = true ↔ ∀ worker ∈ p.workers, worker.phase = .stopped := by
  simp [isFinished]

section
variable (h : p.Accounts files work) (hfinished : p.isFinished = true) (hworkers : p.workers ≠ [])
include h hfinished hworkers

theorem Accounts.indices_perm :
    (p.workers.flatMap fun worker => worker.done.map (·.1)).Perm (List.range files.length) := by
  have hstopped := isFinished_iff.1 hfinished
  obtain ⟨worker, hm⟩ := List.exists_mem_of_ne_nil _ hworkers
  have hnext : files.length ≤ p.next := (h.sound worker hm).stopped (hstopped worker hm)
  have hheld : p.workers.flatMap (Worker.held files.length) =
      p.workers.flatMap fun worker => worker.done.map (·.1) := by
    refine List.flatMap_congr fun worker hm => ?_
    simp only [Worker.held, hstopped worker hm, List.append_nil]
  have hheld' := h.held
  rwa [hheld, Nat.min_eq_right hnext] at hheld'

/-- **When all workers have stopped, the results are those of the files, in order.** -/
theorem Accounts.results_eq : p.results = files.map work := by
  refine map_snd_mergeSort ?_ fun entry he => ?_
  · rw [List.map_flatMap]
    exact h.indices_perm hfinished hworkers
  · obtain ⟨worker, hm, he⟩ := List.mem_flatMap.1 he
    exact (h.sound worker hm).done entry he

end

/-! ### Every worker stops -/

variable {worker' : Worker ρ}

theorem length_step (w : Nat) : (p.step files work w).workers.length = p.workers.length := by
  cases hw : p.workers[w]? with
  | none => rw [step_of_none hw]
  | some worker =>
    obtain ⟨next', worker', -, hstep⟩ := step_goes files work hw
    rw [hstep, List.length_set]

theorem length_run (schedule : List Nat) :
    (p.run files work schedule).workers.length = p.workers.length := by
  induction schedule generalizing p with
  | nil => rfl
  | cons w schedule ih => exact ih.trans (length_step w)

variable (files work) in
theorem step_turns (hw : p.workers[w]? = some worker) (i : Nat) : ∃ worker',
    (p.step files work i).workers[w]? = some worker' ∧
      (worker.phase = .stopped → worker'.phase = .stopped) ∧
      (worker.phase ≠ .stopped → worker'.turns = worker.turns + if i = w then 1 else 0) := by
  by_cases hi : i = w
  · subst hi
    obtain ⟨next', worker', hgoes, hstep⟩ := step_goes files work hw
    have hlt := (List.getElem?_eq_some_iff.1 hw).1
    refine ⟨worker', by rw [hstep, List.getElem?_set_self hlt], fun hs => ?_, fun hs => ?_⟩
    · rw [hgoes.eq_of_stopped hs, hs]
    · rw [hgoes.turns_eq hs, if_pos rfl]
  · refine ⟨worker, ?_, id, fun _ => by rw [if_neg hi, Nat.add_zero]⟩
    cases hother : p.workers[i]? with
    | none => rw [step_of_none hother, hw]
    | some other =>
      obtain ⟨next', other', -, hstep⟩ := step_goes files work hother
      rw [hstep, List.getElem?_set_ne hi, hw]

variable (files work) in
theorem run_turns (hw : p.workers[w]? = some worker) (schedule : List Nat) : ∃ worker',
    (p.run files work schedule).workers[w]? = some worker' ∧
      (worker'.phase ≠ .stopped →
        worker.phase ≠ .stopped ∧ worker'.turns = worker.turns + schedule.count w) := by
  induction schedule generalizing p worker with
  | nil => exact ⟨worker, hw, fun hs => ⟨hs, rfl⟩⟩
  | cons i schedule ih =>
    obtain ⟨worker₁, hw₁, hstopped, hturns⟩ := step_turns files work hw i
    obtain ⟨worker', hw', hrest⟩ := ih hw₁
    refine ⟨worker', hw', fun hs => ?_⟩
    obtain ⟨hs₁, heq⟩ := hrest hs
    have hs₀ : worker.phase ≠ .stopped := fun h => hs₁ (hstopped h)
    refine ⟨hs₀, ?_⟩
    rw [heq, hturns hs₀, List.count_cons, Nat.add_assoc]
    congr 1
    rw [Nat.add_comm]
    simp

theorem Accounts.length_done_le (h : p.Accounts files work) (hm : worker ∈ p.workers) :
    worker.done.length ≤ files.length := by
  have hsub : (worker.held files.length).Sublist
      (p.workers.flatMap (Worker.held files.length)) :=
    List.sublist_flatten_of_mem (List.mem_map_of_mem hm)
  have hle := hsub.length_le
  rw [h.held.length_eq, List.length_range, Worker.held, List.length_append, List.length_map] at hle
  omega

/-- **Once each worker has gone on often enough, all have stopped.** -/
theorem isFinished_run (jobs : Nat) {schedule : List Nat}
    (henough : ∀ w < jobs, 2 * files.length + 2 ≤ schedule.count w) :
    ((start jobs).run files work schedule).isFinished = true := by
  rw [isFinished_iff]
  intro worker' hm
  obtain ⟨w, hlt, hw⟩ := List.getElem_of_mem hm
  have hjobs : w < jobs := by
    rw [length_run] at hlt
    simpa [start] using hlt
  have hstart : (start jobs : Pool ρ).workers[w]? = some ⟨.ready, []⟩ := by
    simp [start, hjobs]
  obtain ⟨worker, hworker, hturns⟩ := run_turns files work hstart schedule
  rw [List.getElem?_eq_getElem hlt, hw] at hworker
  cases hworker
  by_contra hs
  obtain ⟨-, heq⟩ := hturns hs
  have hdone := (run_accounts (accounts_start jobs) schedule).length_done_le hm
  have hcount := henough w hjobs
  have hless : worker'.turns ≤ 2 * worker'.done.length + 1 := by
    unfold Worker.turns
    cases hphase : worker'.phase with
    | ready | fetched => simp
    | stopped => exact absurd hphase hs
  have hzero : (⟨.ready, []⟩ : Worker ρ).turns = 0 := rfl
  omega

theorem count_turns {jobs w : Nat} (hw : w < jobs) (count : Nat) :
    (turns jobs count).count w = 2 * count + 2 := by
  have hone : (List.range jobs).count w = 1 :=
    List.count_eq_one_of_mem List.nodup_range (List.mem_range.2 hw)
  rw [turns, List.count_flatten, List.map_replicate, hone, List.sum_replicate_nat, Nat.mul_one]

theorem workers_ne_nil {jobs : Nat} (hjobs : 1 ≤ jobs) (schedule : List Nat) :
    ((start jobs).run files work schedule).workers ≠ [] := by
  rw [← List.length_pos_iff, length_run, start, List.length_replicate]
  exact hjobs

end Pool

theorem workThrough_eq {jobs : Nat} (hjobs : 1 ≤ jobs) (files : List α) (work : α → ρ) :
    workThrough jobs files work = files.map work :=
  (Pool.run_accounts (Pool.accounts_start jobs) _).results_eq
    (Pool.isFinished_run jobs fun _ hw => (Pool.count_turns hw _).ge)
    (Pool.workers_ne_nil hjobs _)

/-! ## Checking files -/

theorem Surroundings.source_of_ne (s : Surroundings) (input : Except ReadFailure String)
    {path : String} (h : path ≠ standardInput) :
    { s with input := input }.source path = s.source path := by
  simp only [source, if_neg h, fileOrMessage]

theorem Surroundings.sources_eq {s : Surroundings} {paths : List String}
    (h : paths.count standardInput ≤ 1) :
    s.sources paths = paths.map fun path => (path, s.source path) := by
  induction paths generalizing s with
  | nil => rfl
  | cons path paths ih =>
    rw [List.count_cons] at h
    rw [sources, List.map_cons, List.cons.injEq]
    refine ⟨rfl, ?_⟩
    split_ifs with hpath
    · -- the standard input has been read, and nothing else reads it
      have hnone : paths.count standardInput = 0 := by
        rw [if_pos (by simpa using hpath)] at h
        omega
      rw [ih (by omega)]
      refine List.map_congr_left fun other ho => ?_
      rw [s.source_of_ne]
      rintro rfl
      exact List.count_eq_zero.1 hnone ho
    · exact ih (by omega)

namespace CheckRequest

/-- What checking one file reports, whatever else is checked. -/
def reportOn (c : CheckRequest) (s : Surroundings) (config : Configuration) (gs : Grammars)
    (path : String) : FileReport :=
  c.report config gs (path, s.source path)

theorem one_le_workers (c : CheckRequest) (parallelism? : Option Nat) : 1 ≤ c.workers parallelism? :=
  Nat.le_max_left ..

theorem ok_pair {ε β γ : Type} {x : Except ε β} {f : β → Except ε γ} {b : β} {c : γ}
    (hx : x = .ok b) (hf : f b = .ok c) :
    (do
      let b ← x
      return (b, ← f b)) = .ok (b, c) := by
  subst hx
  simp only [bind, Except.bind, hf]
  rfl

theorem run_eq {c : CheckRequest} {s : Surroundings} {config : Configuration} {gs : Grammars}
    (hconfig : s.configuration c.reading = .ok config) (hgs : grammarsFor config = .ok gs)
    (parallelism? : Option Nat) :
    c.run s parallelism? =
      let reports := (s.sources c.files).map (c.report config gs)
      { code := if reports.any FileReport.isFailure then 1 else 0
        output := ""
        log := reportEvents gs [] reports
        errors := String.join (reports.map (·.render c.color.isOn)) } := by
  rw [run, ok_pair hconfig hgs]
  simp only [workThrough_eq (c.one_le_workers parallelism?)]

/-- **What a check of some files comes to depends neither on the number of workers nor on the
schedule.**  The standard input is read once at most.  Any number of workers have stopped once each of
them has gone on often enough.  When they have, each file has been checked once, the reports are those
on the single files, in order, and the exit status and what is printed are those of the command. -/
theorem run_scheduled (c : CheckRequest) (s : Surroundings) (config : Configuration) (gs : Grammars)
    (hstdin : c.files.count standardInput ≤ 1) {jobs : Nat} (hjobs : 1 ≤ jobs)
    (schedule : List Nat) (parallelism? : Option Nat) :
    let pool := (Pool.start jobs).run (s.sources c.files) (c.report config gs) schedule
    ((∀ w < jobs, 2 * c.files.length + 2 ≤ schedule.count w) → pool.isFinished = true) ∧
    (pool.isFinished = true →
      (pool.workers.flatMap fun worker => worker.done.map (·.1)).Perm
        (List.range c.files.length) ∧
      pool.results = c.files.map (c.reportOn s config gs) ∧
      (s.configuration c.reading = .ok config → grammarsFor config = .ok gs →
        (c.run s parallelism?).code = (if pool.results.any FileReport.isFailure then 1 else 0) ∧
        (c.run s parallelism?).output = "" ∧
        (c.run s parallelism?).errors = String.join (pool.results.map (·.render c.color.isOn)))) := by
  intro pool
  have hsources := s.sources_eq hstdin
  have hlength : (s.sources c.files).length = c.files.length := by rw [hsources, List.length_map]
  have haccounts : pool.Accounts (s.sources c.files) (c.report config gs) :=
    Pool.run_accounts (Pool.accounts_start jobs) schedule
  have hworkers : pool.workers ≠ [] := Pool.workers_ne_nil hjobs schedule
  refine ⟨fun henough => Pool.isFinished_run jobs (hlength ▸ henough), fun hfinished => ?_⟩
  have hresults := haccounts.results_eq hfinished hworkers
  refine ⟨hlength ▸ haccounts.indices_perm hfinished hworkers, ?_, fun hconfig hgs => ?_⟩
  · rw [hresults, hsources, List.map_map]
    rfl
  · rw [run_eq hconfig hgs parallelism?, hresults]
    exact ⟨rfl, rfl, rfl⟩

/-- A request to check a file and the standard input. -/
def fileAndInput : CheckRequest :=
  ⟨["a.cpp", standardInput], ⟨false, none, none⟩, none, .never⟩

/-- Surroundings in which there is no file, and the standard input is no text. -/
def unreadable : Surroundings :=
  ⟨fun _ => .error .missing, .error .notText⟩

/-- Two workers check them in turn; the second one takes the first file. -/
theorem run_scheduled_fileAndInput :
    ∃ gs, fileAndInput.files.count standardInput ≤ 1 ∧ 1 ≤ 2 ∧
      let schedule := (List.replicate 6 [1, 0]).flatten
      let pool := (Pool.start 2).run (unreadable.sources fileAndInput.files)
        (fileAndInput.report {} gs) schedule
      (∀ w < 2, 2 * fileAndInput.files.length + 2 ≤ schedule.count w) ∧
      pool.isFinished = true ∧
      (pool.workers.flatMap fun worker => worker.done.map (·.1)).Perm [0, 1] ∧
      pool.results = [fileAndInput.reportOn unreadable {} gs "a.cpp",
        fileAndInput.reportOn unreadable {} gs standardInput] ∧
      unreadable.configuration fileAndInput.reading = .ok {} ∧ grammarsFor {} = .ok gs ∧
      (fileAndInput.run unreadable (some 2)).code = 1 := by
  obtain ⟨gs, hgs⟩ : ∃ gs, grammarsFor {} = .ok gs := by
    unfold grammarsFor grammarFor
    simp only [Grammar.standard?_eq]
    exact ⟨_, rfl⟩
  have hconfig : unreadable.configuration fileAndInput.reading = .ok {} := rfl
  have henough : ∀ w < 2, 2 * fileAndInput.files.length + 2 ≤
      ((List.replicate 6 [1, 0]).flatten).count w := by decide
  have hstdin : fileAndInput.files.count standardInput ≤ 1 := by decide
  obtain ⟨hstop, hrest⟩ := run_scheduled fileAndInput unreadable {} gs hstdin (by decide : 1 ≤ 2)
    (List.replicate 6 [1, 0]).flatten (some 2)
  obtain ⟨hperm, hresults, hrun⟩ := hrest (hstop henough)
  refine ⟨gs, hstdin, by decide, henough, hstop henough, hperm, hresults, hconfig, hgs, ?_⟩
  rw [(hrun hconfig hgs).1, hresults]
  rfl

end CheckRequest

end PackratCpp.Cli
