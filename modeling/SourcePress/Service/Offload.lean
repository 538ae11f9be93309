import SourcePress.Service.Message

/-!
# Offloaded execution

A context for offloaded execution is acquired before requests are submitted and released
afterwards. To acquire it is to start a pool of workers, which may fail. A request crosses to the
worker as a message, and its outcome comes back as one.
-/

namespace SourcePress.Service

variable [Platform]

/-- Why a pool of workers cannot be started, in the words of the pool. -/
structure PoolFault where
  /-- The wording. -/
  message : Text
  /-- The name of the kind of fault. -/
  typeName : String
  deriving DecidableEq, Repr

/-- What it comes to to start a pool of so many workers. -/
abbrev Pool := Backend → Nat → Except PoolFault Unit

/-- The pools with processes up to a limit and with any number of threads. -/
def Pool.upTo (limit : Nat) (refusal : PoolFault) : Pool
  | .process, workers => if workers ≤ limit then .ok () else .error refusal
  | .thread, _ => .ok ()

/-- A context for offloaded execution. -/
structure Context where
  /-- Where the work runs. -/
  backend : Backend
  /-- The number of workers. -/
  workers : Nat
  /-- The configuration of the work. -/
  config : Config
  /-- True while the context is acquired. -/
  active : Bool := false
  deriving DecidableEq

/-- Why values make no context. -/
inductive ContextFault where
  /-- There is no such backend. -/
  | unknownBackend
  /-- There is no worker. -/
  | noWorkers
  deriving DecidableEq, Repr

/-- The wording of a fault. -/
def ContextFault.message : ContextFault → String
  | unknownBackend => "backend must be one of " ++ Backend.choices
  | noWorkers => "max_workers must be positive"

/-- Why a request has no outcome. -/
inductive OffloadFault where
  /-- The pool cannot be started. -/
  | pool (f : PoolFault)
  /-- The context is not acquired. -/
  | notAcquired
  /-- A message cannot be read. -/
  | message (f : MessageFault)

/-- The wording of a fault. -/
def OffloadFault.text : OffloadFault → Text
  | pool f => f.message
  | notAcquired => "execution context has not been acquired"
  | message f => f.text

/-- The name of a kind of fault. -/
def OffloadFault.typeName : OffloadFault → String
  | pool f => f.typeName
  | notAcquired => "RuntimeError"
  | message f => f.typeName

namespace Context

/-- The context with a named backend and a number of workers. -/
def ofValues (backend : Text) (workers : Int) (config : Config) : Except ContextFault Context :=
  match Backend.ofName? backend with
  | none => .error .unknownBackend
  | some b => if workers < 1 then .error .noWorkers else .ok ⟨b, workers.toNat, config, false⟩

/-- The context of a configuration. -/
def ofConfig (config : Config) : Context := ⟨config.backend, config.workers, config, false⟩

/-- Acquires a context: its pool is started, unless it is acquired already. -/
def acquire (pool : Pool) (c : Context) : Except OffloadFault Context :=
  if c.active then .ok c
  else ((pool c.backend c.workers).mapError .pool).map fun _ => { c with active := true }

/-- Releases a context. -/
def release (c : Context) : Context := { c with active := false }

/-- The outcome of a request that crosses to a worker and back. -/
def submit (c : Context) (r : Request) : Except OffloadFault (Outcome Text) :=
  if c.active then do
    let reply ← (answer c.config r.toMessage).mapError .message
    let outcome ← (Outcome.ofMessage reply).mapError .message
    return outcome.map textOf
  else .error .notAcquired

end Context

end SourcePress.Service
