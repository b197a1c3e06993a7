/-
  Mccp.Counting.Program
  ─────────────────────
  **THE PROGRAM check10-a.c: WORKERS THAT COUNT, AND A PROMPT.**

  The workers of one stage count what they process, in a sum that all threads
  share.  main() reads commands: it pauses and resumes the stage, and prints
  the sum.  The stage is that of pipeline_stage.c with its workers, the lock of
  the sum that of lock.c.  The program is taken up where the stage is started
  and the global state is STARTED; a worker that still waits for that is one
  that is not scheduled.

      command   — what a line says
      State     — the stage, the sum, and main()
      workerStep, mainStep — the next step of a worker, of main()
      next      — one step of all threads (executable)
-/
import Mccp.Counting.Sum
import Mccp.Pipeline.Quiescence
import Mccp.Str.Trim

namespace Mccp.Counting

open Pipeline.Pause (Crew)
open Transition

/-! ## §1. The commands. -/

/-- A command that the loop knows; `spause` sets the sum to zero. -/
inductive Command where
  | pause (zero : Bool)
  | resume
  | get
  deriving DecidableEq, Repr

/-- `strcasecmp` finds no difference. -/
def sameCase (s t : List Char) : Bool := s.map Char.toLower = t.map Char.toLower

/-- What a command line says, without the white space at its end. -/
def command (cmd : List Char) : Option Command :=
  if sameCase cmd "pause".toList ∨ sameCase cmd "spause".toList then
    some (.pause (sameCase cmd "spause".toList))
  else if sameCase cmd "resume".toList then some .resume
  else if sameCase cmd "get".toList then some .get
  else none

/-! ## §2. The program. -/

/-- What a number is printed for. -/
inductive Show where
  /-- "Paused"; with `zero` the sum has been set to zero before. -/
  | paused (zero : Bool)
  | got
  deriving DecidableEq, Repr

/-- Where main() is. -/
inductive Main where
  /-- `fgets`. -/
  | prompt
  /-- In `mccp_pipeline_stage_pause`. -/
  | pausing (zero : Bool)
  /-- In `s_set(0LL)`, and in the `s_get()` of the number to be printed. -/
  | setting
  | showing (how : Show)
  /-- In `mccp_pipeline_stage_resume`. -/
  | resuming
  /-- In `mccp_pipeline_stage_shutdown`, and then asleep for a second. -/
  | shuttingDown
  | stopping
  /-- In `mccp_pipeline_stage_wait`, or later. -/
  | waiting
  /-- There is no command line to compare. -/
  | crashed
  deriving DecidableEq, Repr

/-- The program with `n` workers; thread `none` is that of main(). -/
structure State (n : Nat) where
  crew : Crew n
  sum : Sum (Option (Fin n))
  /-- `s_incr` has returned to the `s_main` of the worker. -/
  returned : Fin n → Bool
  main : Main
  st : Result
  s_do_stop : Bool

/-- The front door is open. -/
def State.initial (n : Nat) : State n where
  crew := Crew.started n .f_m_t
  sum := Sum.initial (Option (Fin n))
  returned _ := false
  main := .prompt
  st := .ok
  s_do_stop := false

/-- What a scheduler can choose. -/
inductive Action (n : Nat) where
  /-- A worker's step; if it completes the barrier, `master` is told so. -/
  | worker (i master : Fin n)
  /-- A step of main(); `line` is what fgets() finds. -/
  | main (line : Option (List Char))
  /-- A worker's sleep, or that of main() in a pause, ends without a notification. -/
  | wakeWorker (i : Fin n)
  | wakeMain
  deriving DecidableEq, Repr

/-- What is seen of a step. -/
inductive Obs (n : Nat) where
  | quiet
  /-- `s_main` of the worker returns. -/
  | processed (i : Fin n)
  | set (v : UInt64)
  | command (c : Command)
  | paused (ret : Result)
  | resumed (ret : Result)
  | shown (how : Show) (v : UInt64)
  | leaves
  | shutDown (ret : Result)
  | crashes
  deriving DecidableEq, Repr

variable {n : Nat}

/-- The program with a worker's step of the stage done. -/
def onCrew (s : State n) (a : Pipeline.Pause.Action n) (k : Crew n → Obs n × State n) :
    Option (Obs n × State n) :=
  (Pipeline.Pause.next s.crew a).map fun r => k r.2

/-- The next step of `s_main` of worker `i`, which processes `n_evs` events. -/
def sMain (s : State n) (i : Fin n) (n_evs : Result) (master : Fin n) :
    Option (Obs n × State n) :=
  if s.returned i then
    onCrew s (.worker i n_evs master) fun crew =>
      (.processed i, { s with crew := crew, returned := Function.update s.returned i false })
  else if s.sum.place (some i) = .idle then
    (call s.sum (some i) .incr).map fun r => (.quiet, { s with sum := r.2 })
  else
    (run s.sum (some i)).map fun r =>
      match r.1 with
      | .returned _ _ =>
          (.quiet, { s with sum := r.2, returned := Function.update s.returned i true })
      | _ => (.quiet, { s with sum := r.2 })

/-- **A worker's step.**  `s_fetch` has an event as long as `s_do_stop` is false,
`s_main` and `s_throw` return the number that they are given. -/
def workerStep (s : State n) (i master : Fin n) : Option (Obs n × State n) :=
  match s.crew.place i with
  | .executing .fetch _ =>
      onCrew s (.worker i (if s.s_do_stop = false then 1 else 0) master) fun crew =>
        (.quiet, { s with crew := crew })
  | .executing .main _ => sMain s i (s.crew.st i) master
  | .executing .throw _ =>
      onCrew s (.worker i (s.crew.st i) master) fun crew => (.quiet, { s with crew := crew })
  | _ => onCrew s (.worker i 0 master) fun crew => (.quiet, { s with crew := crew })

/-- The end of the loop: the stage is shut down gracefully. -/
def leave (s : State n) : Option (Obs n × State n) :=
  onCrew s (.call .shutdown) fun crew => (.leaves, { s with crew := crew, main := .shuttingDown })

/-- A line has been read. -/
def atPrompt (s : State n) (line : Option (List Char)) : Option (Obs n × State n) :=
  match line with
  | none => leave s
  | some buf =>
      -- the status is looked at once a line has been read
      if s.st ≠ .ok then leave s
      else
        match (Str.trimRight (some buf) (some "\r\n\t ".toList) true).2 with
        | none => some (.crashes, { s with main := .crashed })
        | some cmd =>
            match command cmd with
            | none => some (.quiet, s)
            | some (.pause zero) =>
                onCrew s (.call (.pause (-1))) fun crew =>
                  (.command (.pause zero), { s with crew := crew, main := .pausing zero })
            | some .resume =>
                onCrew s (.call .resume) fun crew =>
                  (.command .resume, { s with crew := crew, main := .resuming })
            | some .get => some (.command .get, { s with main := .showing .got })

/-- A step of main() in one of the calls on the stage. -/
def inCall (s : State n) (k : Pipeline.Pause.Outcome → Crew n → Obs n × State n) :
    Option (Obs n × State n) :=
  (Pipeline.Pause.next s.crew .api).map fun r => k r.1.outcome r.2

/-- A step of main() in a function of the sum, which it calls first. -/
def onSum (s : State n) (op : Op) (k : UInt64 → Obs n × Main) : Option (Obs n × State n) :=
  if s.sum.place none = .idle then
    (call s.sum none op).map fun r => (.quiet, { s with sum := r.2 })
  else
    (run s.sum none).map fun r =>
      match r.1 with
      | .quiet => (.quiet, { s with sum := r.2 })
      | .wrote (.set v) => (.set v, { s with sum := r.2 })
      | .wrote _ => (.quiet, { s with sum := r.2 })
      | .returned _ v => ((k v).1, { s with sum := r.2, main := (k v).2 })

/-- **A step of main().** -/
def mainStep (s : State n) (line : Option (List Char)) : Option (Obs n × State n) :=
  match s.main with
  | .prompt => atPrompt s line
  | .pausing zero =>
      inCall s fun o crew =>
        match o with
        | .paused ret =>
            (.paused ret, { s with
              crew := crew
              st := ret
              main :=
                if ret = .ok then if zero then .setting else .showing (.paused zero)
                else .prompt })
        | _ => (.quiet, { s with crew := crew })
  | .setting => onSum s (.set 0) fun _ => (.quiet, .showing (.paused true))
  | .showing how => onSum s .get fun v => (.shown how v, .prompt)
  | .resuming =>
      inCall s fun o crew =>
        match o with
        | .resumed ret => (.resumed ret, { s with crew := crew, st := ret, main := .prompt })
        | _ => (.quiet, { s with crew := crew })
  | .shuttingDown =>
      inCall s fun o crew =>
        match o with
        | .shutDown ret =>
            (.shutDown ret, { s with
              crew := crew
              st := ret
              main := if ret = .ok then .stopping else .waiting })
        | _ => (.quiet, { s with crew := crew })
  | .stopping => some (.quiet, { s with s_do_stop := true, main := .waiting })
  | .waiting => none
  | .crashed => none

/-- **One step**, with what is seen of it. -/
def next (s : State n) : Action n → Option (Obs n × State n)
  | .worker i master => workerStep s i master
  | .main line => mainStep s line
  | .wakeWorker i => onCrew s (.wakeWorker i) fun crew => (.quiet, { s with crew := crew })
  | .wakeMain => onCrew s (.wakeApi .ok) fun crew => (.quiet, { s with crew := crew })

/-- The transition relation. -/
abbrev Step (n : Nat) : State n → Obs n → State n → Prop := observed next

end Mccp.Counting
