import ReportSql.Execution.Executor

/-!
# Rehearsals

Reports run against a script of answers in place of a database. Several runs go on
at the same time and take turns; an answer may make its run give way a number of
times before it arrives.

## Main definitions

* `Rehearsal` - an executor with its script
* `Rehearsal.together` - several runs that take turns
* `Rehearsal.queries` - the queries that were sent

## Design notes

A turn lets a run go on until it has to give way or ends. After each turn of all
runs, every run that has not ended has given way once more, so the number of turns
is bounded by the number of times that all answers of the script give way.
-/

namespace ReportSql

/-- An answer of the script: how often its run gives way before it arrives, and what it says. -/
structure ScriptedReply where
  pauses : Nat
  reply : Reply

/-- The answer of a script that has run out: no columns and no rows. -/
def ScriptedReply.nothing : ScriptedReply :=
  ⟨0, .ok RowSet.empty, 0⟩

/-- A query that was sent, with its values. -/
structure SentQuery where
  sql : String
  params : Params

/-- Where memberships are looked up. -/
inductive AccessSource where
  | directory (directory : Directory)
  | database

/-- An executor with its script and the queries sent so far. -/
structure Rehearsal (σ : Type) where
  executor : Executor σ
  source : AccessSource
  script : List ScriptedReply
  queries : List SentQuery

/-- A run that waits for an answer. -/
inductive Waiting where
  | access (request : ReportRequest) (reply : Reply)
  | total (job : Job) (reply : Reply)
  | page (counted : CountedJob) (reply : Reply)

/-- Where a run stands. A paused one gives way in `pauses` more turns, this one included. -/
inductive RunState where
  | ready (request : ReportRequest)
  | paused (pauses : Nat) (waiting : Waiting)
  | ended (outcome : Except ReportError ResultPage)

/-- The outcome of a run that has ended. -/
def RunState.outcome? : RunState → Option (Except ReportError ResultPage)
  | ended outcome => some outcome
  | _ => none

namespace Rehearsal

variable {σ : Type}

/-- The rehearsal with another script and no queries sent. -/
def withScript (s : Rehearsal σ) (script : List ScriptedReply) : Rehearsal σ :=
  { s with script, queries := [] }

/-- Sends a query and takes the next answer of the script. -/
def ask (s : Rehearsal σ) (query : SentQuery) : Rehearsal σ × ScriptedReply :=
  let s := { s with queries := s.queries ++ [query] }
  match s.script with
  | [] => (s, .nothing)
  | answer :: rest => ({ s with script := rest }, answer)

variable [Cache.Store σ]

/-- A run after the answer to its second query. -/
def afterPage (s : Rehearsal σ) (counted : CountedJob) (reply : Reply) :
    Rehearsal σ × RunState :=
  let (executor, outcome) := s.executor.receivePage 0 counted reply
  ({ s with executor }, .ended outcome)

/-- A run that sends its second query. -/
def askPage (s : Rehearsal σ) (counted : CountedJob) : Rehearsal σ × RunState :=
  let job := counted.job
  let (s, answer) :=
    s.ask ⟨job.prepared.pagedSql job.page job.pageSize, job.prepared.params⟩
  if answer.pauses = 0 then s.afterPage counted answer.reply
  else (s, .paused answer.pauses (.page counted answer.reply))

/-- A run after the answer to its first query. -/
def afterTotal (s : Rehearsal σ) (job : Job) (reply : Reply) : Rehearsal σ × RunState :=
  match s.executor.receiveTotal job reply with
  | (executor, .error cause) => ({ s with executor }, .ended (.error cause))
  | (executor, .ok counted) => askPage { s with executor } counted

/-- A run that sends its first query. -/
def askTotal (s : Rehearsal σ) (job : Job) : Rehearsal σ × RunState :=
  let (s, answer) := s.ask ⟨job.prepared.countSql, job.prepared.params⟩
  if answer.pauses = 0 then s.afterTotal job answer.reply
  else (s, .paused answer.pauses (.total job answer.reply))

/-- A run for which the caller is known. -/
def afterAccess (s : Rehearsal σ) (request : ReportRequest)
    (access : Except ScopeError Access) : Rehearsal σ × RunState :=
  match s.executor.start 0 request access with
  | (executor, .ended outcome) => ({ s with executor }, .ended outcome)
  | (executor, .counting job) => askTotal { s with executor } job

/-- What an answer to the membership look-up of a run says. -/
def accessIn (s : Rehearsal σ) (request : ReportRequest) (reply : Reply) :
    Except ScopeError Access :=
  s.executor.membershipTable.accessOf request.caller.userId reply.outcome

/-- A run that begins. Without tenancy nothing is looked up. -/
def begin (s : Rehearsal σ) (request : ReportRequest) : Rehearsal σ × RunState :=
  let user := request.caller.userId
  if !s.executor.settings.tenant.enabled then
    s.afterAccess request (.ok ⟨false, UnitSet.empty⟩)
  else
    match s.source with
    | .directory directory => s.afterAccess request (directory.access user)
    | .database =>
      let (s, answer) :=
        s.ask ⟨s.executor.membershipTable.lookupSql, MembershipTable.lookupParams user⟩
      if answer.pauses = 0 then s.afterAccess request (s.accessIn request answer.reply)
      else (s, .paused answer.pauses (.access request answer.reply))

/-- A run after its answer has arrived. -/
def resume (s : Rehearsal σ) : Waiting → Rehearsal σ × RunState
  | .access request reply => s.afterAccess request (s.accessIn request reply)
  | .total job reply => s.afterTotal job reply
  | .page counted reply => s.afterPage counted reply

/-- One turn of a run. -/
def turn (s : Rehearsal σ) : RunState → Rehearsal σ × RunState
  | .ready request => s.begin request
  | .paused pauses waiting =>
    if pauses ≤ 1 then s.resume waiting else (s, .paused (pauses - 1) waiting)
  | .ended outcome => (s, .ended outcome)

/-- One turn of every run, in order. -/
def round (s : Rehearsal σ) : List RunState → Rehearsal σ × List RunState
  | [] => (s, [])
  | run :: rest =>
    let (s, run) := s.turn run
    let (s, rest) := s.round rest
    (s, run :: rest)

/-- Rounds until all runs have ended, but at most `fuel` of them. -/
def rounds (s : Rehearsal σ) (runs : List RunState) : Nat → Rehearsal σ × List RunState
  | 0 => (s, runs)
  | fuel + 1 =>
    if runs.all (·.outcome?.isSome) then (s, runs)
    else
      let (s, runs) := s.round runs
      s.rounds runs fuel

/-- The runs of several requests, taking turns until all have ended. A request that is refused
before it runs keeps its place. -/
def together (s : Rehearsal σ) (requests : List (Except ReportError ReportRequest)) :
    Rehearsal σ × List RunState :=
  let runs := requests.map fun
    | .ok request => .ready request
    | .error cause => .ended (.error cause)
  s.rounds runs (s.script.foldl (fun total step => total + step.pauses) 0 + 1)

end Rehearsal

end ReportSql
