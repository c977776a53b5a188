import Cronova.Process.Interleaving
import Cronova.Scheduler.Attempt
import Cronova.Scheduler.Registration
import Cronova.Scheduler.Tick

/-! The scheduler process: the loop, the operators' requests and the goroutines of the
attempts, interleaved at their statements, with crashes in between. -/

set_option autoImplicit false

namespace Cronova.Scheduler

open Model Store Process

variable (env : Env)

def serve : Request → Act Unit
  | .recover => recover env
  | .tick => tickOnce env
  | .cancelRun run => cancelRun run
  | .retryTask run task => retryTask env run task
  | .retryRun run => retryRun env run
  | .markTask run task target => markTask env run task target
  | .markRun run target => markRun env run target
  | .triggerManual dag params priority => triggerManual env dag params priority
  | .backfill dag from_ until_ => backfill env dag from_ until_
  | .publishEvent key payload => publishExternalEvent key payload
  | .createDAG yaml => createDAG env yaml
  | .loadDAGs files => loadDAGs env files
  | .reloadDAGs files => reloadDAGs env files
  | .deleteDAG dag => deleteDAG dag
  | .setPaused dag paused => setPaused dag paused
  | .goroutine (.runTask _ t ti) _ => runTask env t ti
  | .goroutine (.awaitCompletion ti) _ => awaitCompletion env ti

abbrev Threads := List (Thread statements Failure Request)

abbrev State := Process.Pool statements Failure World Request

abbrev Step := Move Answer Request

/-- The requests that `Run` serves on its own goroutine, one after the other. -/
def Request.isLoop : Request → Bool
  | .recover | .tick => true
  | _ => false

def finished (thread : Thread statements Failure Request) : Bool :=
  match thread.rest with
  | .call _ _ => false
  | _ => true

/-- Ticks follow one another; operators may come at any time; goroutines are started by `go`. -/
def admits (threads : Threads) : Request → Bool
  | .recover | .goroutine _ _ => false
  | .tick => threads.all fun thread => !thread.origin.isLoop || finished thread
  | _ => true

def scheduler : System statements Failure World Answer Request where
  perform := World.perform
  program := serve env
  admits := admits
  crash := World.crash
  boot := .recover

end Cronova.Scheduler
