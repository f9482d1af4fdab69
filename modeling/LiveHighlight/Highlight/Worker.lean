import LiveHighlight.Highlight.DocumentParser

/-! Queries in the background. The highlighter sends jobs and takes results; in between, the worker
moves on its own: it may skip a job that has a newer one behind it, begin the first job that waits,
and finish the one that runs. -/

namespace LiveHighlight

/-- A query to run in the background, with all it needs. -/
structure QueryJob (E : SyntaxEngine) where
  /-- The highlighter's generation at which the job was sent. -/
  generation : Nat
  target : QueryTarget E
  text : Document
  range : ByteRange
  limits : QueryBounds

/-- The answer of a job. -/
structure JobResult where
  generation : Nat
  range : ByteRange
  answer : QueryAnswer
deriving DecidableEq, Repr, Inhabited

/-- The answer of a job by a clock. -/
def QueryJob.result {E : SyntaxEngine} (j : QueryJob E) (clock : Clock) : JobResult where
  generation := j.generation
  range := j.range
  answer := j.target.query.runFollowing j.target.tree j.text j.range j.limits clock

/-- A worker: the jobs that wait, oldest first, the job that runs, and the results not yet taken. -/
structure Worker (E : SyntaxEngine) where
  queue : List (QueryJob E) := []
  running : Option (QueryJob E) := none
  results : List JobResult := []

/-- What a worker does on its own. -/
inductive WorkerMove
  | skip
  | begin
  | finish
deriving DecidableEq, Repr, Inhabited

namespace Worker

variable {E : SyntaxEngine}

/-- The worker with another job at the end of its queue. -/
def submit (w : Worker E) (j : QueryJob E) : Worker E := { w with queue := w.queue ++ [j] }

/-- The worker without its oldest waiting job, if a newer one waits behind it. -/
def skip (w : Worker E) : Worker E :=
  match w.queue with
  | _ :: newer :: rest => { w with queue := newer :: rest }
  | _ => w

/-- The worker with its oldest waiting job running, if none runs. -/
def begin (w : Worker E) : Worker E :=
  match w.running, w.queue with
  | none, j :: rest => { w with queue := rest, running := some j }
  | _, _ => w

/-- The worker with the result of the running job. -/
def finish (w : Worker E) (clock : Clock) : Worker E :=
  match w.running with
  | some j => { w with running := none, results := w.results ++ [j.result clock] }
  | none => w

def move (w : Worker E) (clock : Clock) : WorkerMove → Worker E
  | .skip => w.skip
  | .begin => w.begin
  | .finish => w.finish clock

/-- The moves by which a worker comes to rest: of the jobs that wait only the newest is run. -/
def movesToRest (w : Worker E) : List WorkerMove :=
  .finish :: List.replicate (w.queue.length - 1) .skip ++ [.begin, .finish]

/-- The worker at rest. -/
def settle (w : Worker E) (clock : Clock) : Worker E :=
  w.movesToRest.foldl (fun w m => w.move clock m) w

/-- The moves by which a worker gets a result ready: it runs the oldest job that waits. -/
def movesToResult (w : Worker E) : List WorkerMove :=
  if w.results.isEmpty then [.begin, .finish] else []

/-- The worker with a result ready, if there was one or a job for it. -/
def awaitResult (w : Worker E) (clock : Clock) : Worker E :=
  w.movesToResult.foldl (fun w m => w.move clock m) w

end Worker

end LiveHighlight
