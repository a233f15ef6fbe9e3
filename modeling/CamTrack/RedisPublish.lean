import CamTrack.Lib.Machine

namespace CamTrack

namespace RetryConstants

def maxRetries : Nat := 5
def backoffBaseSeconds : ℚ := 1
def backoffMultiplier : ℚ := 2
def backoffMaxSeconds : ℚ := 60

end RetryConstants

open RetryConstants

/-- `_retry_backoff_seconds`. -/
def retryBackoffSeconds (attempt : Nat) : ℚ :=
  min (backoffBaseSeconds * backoffMultiplier ^ attempt) backoffMaxSeconds

/-- What an `XADD` comes to, and whether it has arrived all the same where it raises. -/
inductive XaddOutcome where
  | returned
  | connectionError (arrived : Bool)
  | otherError (arrived : Bool)
  deriving DecidableEq, Repr

/-- What a `publish` comes to. -/
inductive PublishResult where
  | returned (messageId : Nat)
  | connectionError
  | otherError
  deriving DecidableEq, Repr

/-- A call of `publish`: the number of attempts that have failed, the entries that its
attempts have made and the sleeps after them. -/
structure PublishCall (φ : Type) where
  fields : φ
  attempt : Nat
  copies : List Nat
  slept : List ℚ
  result : Option PublishResult
  deriving DecidableEq

/-- A stream, and the calls of `publish` that have been made to it, by anybody. An entry's
id is its position. -/
structure Publishers (φ : Type) where
  entries : List φ
  calls : List (PublishCall φ)
  deriving DecidableEq

/-- What happens next: a call is made, or one of the calls makes its next attempt. -/
inductive PublishAction (φ : Type) where
  | publish (fields : φ)
  | xadd (call : Nat) (outcome : XaddOutcome)

def XaddOutcome.arrives : XaddOutcome → Bool
  | .returned => true
  | .connectionError arrived => arrived
  | .otherError arrived => arrived

namespace PublishCall
variable {φ : Type}

def new (fields : φ) : PublishCall φ := ⟨fields, 0, [], [], none⟩

/-- A turn of the loop, whose entry would come to `position`. It sleeps after the last
failure too. -/
def xadd (position : Nat) (outcome : XaddOutcome) (call : PublishCall φ) : PublishCall φ :=
  let call := { call with
    copies := if outcome.arrives then call.copies ++ [position] else call.copies }
  match outcome with
  | .returned => { call with result := some (.returned position) }
  | .connectionError _ => { call with
      attempt := call.attempt + 1
      slept := call.slept ++ [retryBackoffSeconds call.attempt]
      result := if call.attempt + 1 < maxRetries then none else some .connectionError }
  | .otherError _ => { call with result := some .otherError }

end PublishCall

namespace Publishers
variable {φ : Type}

def new : Publishers φ := ⟨[], []⟩

def step (s : Publishers φ) : PublishAction φ → Option (Publishers φ)
  | .publish fields => some { s with calls := s.calls ++ [.new fields] }
  | .xadd c outcome => do
    let call ← s.calls[c]?
    if call.result.isSome then none
    else some {
      entries := if outcome.arrives then s.entries ++ [call.fields] else s.entries
      calls := s.calls.set c (call.xadd s.entries.length outcome) }

end Publishers
end CamTrack
