import RpaCore.Effects.Proc
import RpaCore.Model.Transaction

set_option relaxedAutoImplicit false
set_option autoImplicit false

/-!
# Notification dispatch

The code of `dispatch` in `notify.py`: a report is sent through every notifier, with up to three
attempts for temporary transport failures. The report and its snapshots are left out, since what a
notifier does with them is left open. Nothing but a `MemoryError` or an exception outside
`Exception` leaves `dispatch`.

## Main definitions

* `SendError`, `SendError.isRetryable` — `_retryable_notification_error`.
* `dispatch` — `dispatch`.
-/

/-- What is behind a transport error. -/
inductive TransportReason
  | timeout
  | connection
  | gaierror (tryAgain : Bool)
  | other
  deriving DecidableEq

/-- The exceptions of an attempt, by what `_retryable_notification_error` looks at. The last one is
a `MemoryError` or an exception outside `Exception`. -/
inductive SendError
  | http (code : ℤ)
  | smtpResponse (code : ℤ)
  | recipientsRefused (codes : List ℤ)
  | serverDisconnected
  | url (reason : TransportReason)
  | transport (reason : TransportReason)
  | fatal (err : PyError)

namespace TransportReason

/-- The reason is a temporary one. -/
def isTemporary : TransportReason → Bool
  | timeout => true
  | connection => true
  | gaierror tryAgain => tryAgain
  | other => false

end TransportReason

namespace SendError

/-- `_retryable_notification_error`. -/
def isRetryable : SendError → Bool
  | http code => [408, 429, 500, 502, 503, 504].contains code
  | smtpResponse code => 400 ≤ code && code < 500
  | recipientsRefused codes => !codes.isEmpty && codes.all fun code => 400 ≤ code && code < 500
  | serverDisconnected => true
  | url reason => reason.isTemporary
  | transport reason => reason.isTemporary
  | fatal _ => false

end SendError

/-- A notifier: its class name, and which one it is. -/
structure Notifier where
  name : String
  index : ℕ
  deriving DecidableEq

/-- The calls of `dispatch`: one attempt of a notifier, the wait before the next one, and the
callback for a failure. -/
inductive DispatchOp
  | send (notifier : Notifier) (attempt : ℕ)
  | wait (seconds : ℕ)
  | failed (name : String)

/-- An attempt and the callback are answered with the exception they raised, if any. -/
abbrev DispatchOp.Res : DispatchOp → Type
  | .send _ _ => Option SendError
  | .wait _ => Unit
  | .failed _ => Option PyError

variable {S : Type}

/-- Code of `notify.py`. -/
abbrev DispatchM (S : Type) := Proc DispatchOp DispatchOp.Res S PyError

/-- The attempts of one notifier, of which `n` are left: whether the last one failed. -/
def sendAttempts (notifier : Notifier) : ℕ → DispatchM S Bool
  | 0 => pure false
  | n + 1 => do
    let answer : Option SendError ← Proc.call (DispatchOp.send notifier (3 - n))
    match answer with
    | none => pure false
    | some (.fatal err) => throw err
    | some err =>
      if n = 0 || !err.isRetryable then pure true
      else
        Proc.call (DispatchOp.wait (3 - n))
        sendAttempts notifier n

/-- The handler of a notifier that has failed, with the callback if there is one. -/
def reportFailure (notifier : Notifier) (hasCallback : Bool) : DispatchM S Unit := do
  if hasCallback then
    let answer : Option PyError ← Proc.call (DispatchOp.failed notifier.name)
    match answer with
    | none => pure ()
    | some err => if err.IsOrdinary then pure () else throw err
  else pure ()

/-- `dispatch`. -/
def dispatch (hasCallback : Bool) : List Notifier → DispatchM S Unit
  | [] => pure ()
  | notifier :: rest => do
    let failed ← sendAttempts notifier 3
    if failed then reportFailure notifier hasCallback
    dispatch hasCallback rest
