import Vault42.Framework.System
import Vault42.Model

/-!
# The audit logger

`internal/audit/audit.go`: entries are collected in a buffer of bounded size, a ticker flushes the
buffer to the store as one batch, and `Close` stops the ticker and flushes once more.

Three kinds of caller meet at the buffer, so a call of the model is one critical section under
`Logger.mu`, one operation of an atomic counter, one look at the channel `done`, or one statement of
the store. A statement of the store can fail, and a batch is one transaction: having failed, it has
stored nothing.

Of an entry only what the logger looks at is kept, its id and its event type; what it says, the
scrubbing of its metadata and the alerts raised beside it decide nothing here. The counters are the
lists of what they counted: `droppedTotal` is the length of `dropped`, and likewise for the other
two.
-/

namespace Vault42.Audit

open Framework

/-- `model.AuditEntry`, its identity and class. -/
structure AuditEntry where
  id : UUID
  eventType : String
deriving DecidableEq, Repr

def svcDocEventPrefix : String := "svcdoc_"

def isCriticalEvent (eventType : String) : Bool :=
  svcDocEventPrefix.toList.isPrefixOf eventType.toList ||
    ["login_failure", "password_change", "password_reset", "token_revoke", "admin_action",
      "kms_unwrap", "token_minted", "honeypot_trigger", "admin_authz_denied",
      "admin_session_rejected", "authenticator_cloned", "refresh_token_replayed"].contains eventType

inductive LoggerCall where
  /-- `crypto.RandomUUID`. -/
  | randomUUID
  /-- `isClosed`: a look at the channel `done`. -/
  | isClosed
  /-- The critical section of `Log`: append, unless the buffer is full. -/
  | append (entry : AuditEntry)
  /-- `droppedTotal.Add(1)` for an entry that met a full buffer. -/
  | addDropped (entry : AuditEntry)
  | addAfterClose (entry : AuditEntry)
  | insert (entry : AuditEntry)
  | insertBatch (entries : List AuditEntry)
  /-- The critical section of `Flush`: take the buffer. -/
  | take
  /-- The critical section of `requeue`. -/
  | requeue (entries : List AuditEntry)
  | addQuarantined (entries : List AuditEntry)
  /-- Entering `closeOnce.Do`: whether the function is to be run. -/
  | onceEnter
  | closeDone
  /-- Leaving `closeOnce.Do` after the function was run. -/
  | onceLeave

abbrev LoggerCall.Reply : LoggerCall → Type
  | .randomUUID => Except Unit UUID
  | .isClosed => Bool
  | .append _ => Bool
  | .addDropped _ => Unit
  | .addAfterClose _ => Unit
  | .insert _ => Except Unit Unit
  | .insertBatch _ => Except Unit Unit
  | .take => List AuditEntry
  | .requeue _ => Unit
  | .addQuarantined _ => Unit
  | .onceEnter => Bool
  | .closeDone => Unit
  | .onceLeave => Unit

abbrev loggerSig : Signature := ⟨LoggerCall, LoggerCall.Reply⟩

abbrev LoggerProg := Program loggerSig

def ask (c : LoggerCall) : LoggerProg c.Reply := Program.perform (S := loggerSig) c

/-- Whether the call returned an error. -/
inductive Outcome where
  | ok
  | error
deriving DecidableEq, Repr

/-- The settings of `NewLoggerWithBufferSize`; batch mode is a positive interval. -/
structure Settings where
  flushEvery : Duration
  bufferSize : ℕ

namespace Logger

variable (cfg : Settings)

/-- `Log` with the buffer full: a critical entry is written at once, the caller hears of neither
loss. -/
def logFull (entry : AuditEntry) : LoggerProg Outcome := do
  ask (.addDropped entry)
  if isCriticalEvent entry.eventType then
    let _ ← ask (.insert entry)
    pure .ok
  else pure .ok

/-- `Log` on a logger that has been closed. -/
def logAfterClose (entry : AuditEntry) : LoggerProg Outcome := do
  ask (.addAfterClose entry)
  match ← ask (.insert entry) with
  | .error _ => pure .error
  | .ok _ => pure .ok

/-- **`Log`.** The channel is looked at before the buffer is locked. -/
def log (eventType : String) : LoggerProg Outcome := do
  match ← ask .randomUUID with
  | .error _ => pure .error
  | .ok id =>
    let entry : AuditEntry := ⟨id, eventType⟩
    if 0 < cfg.flushEvery then
      if ← ask .isClosed then logAfterClose entry
      else if ← ask (.append entry) then pure .ok
      else logFull entry
    else
      match ← ask (.insert entry) with
      | .error _ => pure .error
      | .ok _ => pure .ok

/-- The loop of `isolate`: each entry on its own, with how many the store took and which it
refused. -/
def isolateLoop : List AuditEntry → ℕ → List AuditEntry → LoggerProg (ℕ × List AuditEntry)
  | [], accepted, refused => pure (accepted, refused)
  | e :: entries, accepted, refused => do
    match ← ask (.insert e) with
    | .error _ => isolateLoop entries accepted (refused ++ [e])
    | .ok _ => isolateLoop entries (accepted + 1) refused

/-- `isolate`: a store that took none of them is down, one that took some has refused the others. -/
def isolate (entries : List AuditEntry) : LoggerProg Unit := do
  let (accepted, refused) ← isolateLoop entries 0 []
  if accepted = 0 then ask (.requeue refused) else ask (.addQuarantined refused)

/-- **`Flush`**, also what a tick of the batch loop does. -/
def flush : LoggerProg Outcome := do
  let entries ← ask .take
  if entries.isEmpty then pure .ok
  else
    match ← ask (.insertBatch entries) with
    | .ok _ => pure .ok
    | .error _ => do
      isolate entries
      pure .error

/-- **`Close`.** Only the first call does anything; the others wait for it and report nothing. -/
def close : LoggerProg Outcome := do
  if ← ask .onceEnter then
    ask .closeDone
    let err ← flush
    ask .onceLeave
    pure err
  else pure .ok

end Logger

/-! ### The logger and its store -/

inductive Once where
  | idle
  | running
  | done
deriving DecidableEq, Repr

/-- The logger's memory, and the store behind it. -/
structure LoggerWorld where
  supply : UUID
  buffer : List AuditEntry
  /-- `done` has been closed. -/
  closed : Bool
  closeOnce : Once
  /-- What `droppedTotal` has counted. -/
  dropped : List AuditEntry
  /-- What `quarantinedTotal` has counted. -/
  quarantined : List AuditEntry
  /-- What `afterCloseTotal` has counted. -/
  afterClose : List AuditEntry
  /-- The rows of the audit table. -/
  stored : List AuditEntry
deriving DecidableEq, Repr

/-- `requeue`: to the front of the buffer, as far as there is room; the rest is counted. -/
def LoggerWorld.requeue (cfg : Settings) (w : LoggerWorld) (entries : List AuditEntry) :
    LoggerWorld :=
  let room := cfg.bufferSize - w.buffer.length
  { w with
    dropped := entries.drop room ++ w.dropped
    buffer := entries.take room ++ w.buffer }

def loggerAnswer (cfg : Settings) : (c : LoggerCall) → LoggerWorld → c.Reply × LoggerWorld
  | .randomUUID, w => (.ok w.supply, { w with supply := w.supply + 1 })
  | .isClosed, w => (w.closed, w)
  | .append entry, w =>
    if cfg.bufferSize ≤ w.buffer.length then (false, w)
    else (true, { w with buffer := w.buffer ++ [entry] })
  | .addDropped entry, w => ((), { w with dropped := entry :: w.dropped })
  | .addAfterClose entry, w => ((), { w with afterClose := entry :: w.afterClose })
  | .insert entry, w => (.ok (), { w with stored := entry :: w.stored })
  | .insertBatch entries, w => (.ok (), { w with stored := entries ++ w.stored })
  | .take, w => (w.buffer, { w with buffer := [] })
  | .requeue entries, w => ((), w.requeue cfg entries)
  | .addQuarantined entries, w => ((), { w with quarantined := entries ++ w.quarantined })
  | .onceEnter, w =>
    if w.closeOnce = .idle then (true, { w with closeOnce := .running }) else (false, w)
  | .closeDone, w => ((), { w with closed := true })
  | .onceLeave, w => ((), { w with closeOnce := .done })

/-- The store and the random source can fail, having done nothing. -/
def LoggerFault : (c : LoggerCall) → c.Reply → Prop
  | .randomUUID, r => ∃ e, r = .error e
  | .insert _, r => ∃ e, r = .error e
  | .insertBatch _, r => ∃ e, r = .error e
  | _, _ => False

/-- The calls on a logger. A tick of the batch loop is a `flush` whose error goes to the process
log. -/
inductive LoggerReq where
  | log (eventType : String)
  | flush
  | close
deriving DecidableEq, Repr

def LoggerReq.program (cfg : Settings) : LoggerReq → LoggerProg Outcome
  | .log eventType => Logger.log cfg eventType
  | .flush => Logger.flush
  | .close => Logger.close

/-- **The logger.** A second `Close` waits while the first one runs. -/
def logger (cfg : Settings) : System loggerSig where
  World := LoggerWorld
  Req := LoggerReq
  Result := Outcome
  program := LoggerReq.program cfg
  answer := fun _ c w => loggerAnswer cfg c w
  blocked := fun _ c w =>
    match c with
    | .onceEnter => w.closeOnce = .running
    | _ => false
  Fault := LoggerFault
  Nudge := Empty
  nudge := fun n _ => n.elim

end Vault42.Audit
