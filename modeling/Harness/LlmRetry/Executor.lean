import Harness.Foundation.Double
import Harness.Foundation.Except
import Harness.Foundation.Machine
import Harness.Foundation.SafeInteger
import Mathlib.Data.List.Sort
import Mathlib.Data.List.Lex

namespace Harness.LlmRetry

open Harness.Foundation

structure LlmFailure where
  message : String
  code : String
  status : Option Double
  providerRetryAfterMs : Option Double
  requestId : Option String
  deriving DecidableEq, Repr

def maxTimerDelayMs : ℚ := 2147483647

structure ResolvedRetryBackoff where
  initialDelayMs : ℚ
  maxDelayMs : ℚ
  jitterRatio : ℚ
  initial_pos : 0 < initialDelayMs
  initial_le : initialDelayMs ≤ maxDelayMs
  max_le : maxDelayMs ≤ maxTimerDelayMs
  jitter_nonneg : 0 ≤ jitterRatio
  jitter_le : jitterRatio ≤ 1
  deriving DecidableEq

inductive RetryMode
  | normal (maxRetries : Nat)
  | always
  deriving DecidableEq, Repr

structure ResolvedRetryPolicy where
  mode : RetryMode
  retryableCodes : List String
  backoff : ResolvedRetryBackoff
  safe : ∀ maxRetries, mode = .normal maxRetries → isSafe maxRetries = true
  deriving DecidableEq

def codeUnits (text : String) : List Nat :=
  text.toList.flatMap fun char =>
    let n := char.toNat
    if n < 0x10000 then [n] else [0xD800 + (n - 0x10000) / 0x400, 0xDC00 + (n - 0x10000) % 0x400]

structure PolicyKey where
  mode : RetryMode
  retryableCodes : List String
  backoff : ResolvedRetryBackoff
  deriving DecidableEq

def retryPolicyKey (policy : ResolvedRetryPolicy) : PolicyKey where
  mode := policy.mode
  retryableCodes :=
    match policy.mode with
    | .normal _ => policy.retryableCodes.insertionSort fun a b => codeUnits a ≤ codeUnits b
    | .always => []
  backoff := policy.backoff

structure LlmRetryEventData where
  retryId : String
  turn : Nat
  step : Nat
  provider : String
  mode : RetryMode
  policyKey : PolicyKey
  retry : Nat
  delayMs : Double
  failure : LlmFailure
  deriving DecidableEq

structure LlmRetryStartedEventData where
  retryId : String
  turn : Nat
  step : Nat
  retry : Nat
  deriving DecidableEq, Repr

inductive SessionEvent
  | turnStart (turn : Nat)
  | turnEnd (turn : Nat)
  | stepStart (turn step : Nat)
  | stepEnd (turn step : Nat)
  | requestHeader (provider : String)
  | retry (data : LlmRetryEventData)
  | retryStarted (data : LlmRetryStartedEventData)
  | other
  deriving DecidableEq

namespace SessionEvent

def isTurnBoundary : SessionEvent → Bool
  | turnStart _ | turnEnd _ => true
  | _ => false

def isStepBoundary : SessionEvent → Bool
  | stepStart _ _ | stepEnd _ _ => true
  | _ => false

def isEnd : SessionEvent → Bool
  | turnEnd _ | stepEnd _ _ => true
  | _ => false

def headerProvider : SessionEvent → Option String
  | requestHeader provider => some provider
  | _ => none

def retryIdOf : SessionEvent → Option String
  | retry data => some data.retryId
  | retryStarted data => some data.retryId
  | _ => none

end SessionEvent

def lastHeader (events : List SessionEvent) : Option String :=
  events.reverse.findSome? (·.headerProvider)

def providerForOpenStep (events : List SessionEvent) (turn step : Nat) : Option String :=
  let later := events.reverse.takeWhile (· ≠ .stepStart turn step)
  if later.length = events.length ∨ later.any (·.isEnd) = true then none else lastHeader events

structure Chain where
  turn : Nat
  step : Nat
  provider : String
  policyKey : PolicyKey
  deriving DecidableEq

def LlmRetryEventData.chain (data : LlmRetryEventData) : Chain :=
  ⟨data.turn, data.step, data.provider, data.policyKey⟩

def SessionEvent.retryOf (chain : Chain) : SessionEvent → Option LlmRetryEventData
  | .retry data => if data.chain = chain then some data else none
  | _ => none

def priorPolicyRetry (events : List SessionEvent) (chain : Chain) : Option LlmRetryEventData :=
  events.reverse.findSome? (SessionEvent.retryOf chain)

/-- `priorPolicyRetry?.data.retry ?? 0`. -/
def previousRetry (events : List SessionEvent) (chain : Chain) : Nat :=
  match priorPolicyRetry events chain with
  | some prior => prior.retry
  | none => 0

def inRange (low high : ℚ) (value : Double) : Bool :=
  (Double.finite low).le value && value.le (.finite high)

def validateFailure (failure : LlmFailure) : Except String Unit := do
  require (decide (failure.message ≠ "")) "llm/retry failure.message must be a non-empty string"
  require (decide (failure.code ≠ "")) "llm/retry failure.code must be a non-empty string"
  require (failure.status.all fun status => status.isInteger && inRange 100 599 status)
    "llm/retry failure.status must be an integer from 100 through 599 when present"
  require (failure.providerRetryAfterMs.all fun after => after.isFinite && !after.le (.finite 0))
    "llm/retry failure.providerRetryAfterMs must be a positive finite number when present"
  require (failure.requestId.all fun id => decide (id ≠ ""))
    "llm/retry failure.requestId must be a non-empty string when present"

def validateMode (data : LlmRetryEventData) : Except String Unit :=
  match data.mode with
  | .normal maxRetries =>
    require (isSafe maxRetries && decide (1 ≤ maxRetries) && decide (data.retry ≤ maxRetries))
      s!"llm/retry retry {data.retry} must not exceed a positive safe maxRetries {maxRetries}"
  | .always => .ok ()

def validateTurn (history : List SessionEvent) (data : LlmRetryEventData) : Except String Unit :=
  match history.reverse.find? (·.isTurnBoundary) with
  | some (.turnStart turn) =>
    require (decide (data.turn = turn))
      s!"llm/retry names turn {data.turn}, but the open turn is {turn}"
  | _ => .error "llm/retry must be appended inside an open turn"

def validateStep (history : List SessionEvent) (data : LlmRetryEventData) : Except String Unit :=
  match history.reverse.find? (·.isStepBoundary) with
  | some (.stepStart turn step) =>
    require (decide (data.step = step) && decide (data.turn = turn))
      s!"llm/retry names turn {data.turn}/step {data.step}, but the open step is {turn}/{step}"
  | _ => .error "llm/retry must be appended inside an open step"

def validateChain (history : List SessionEvent) (data : LlmRetryEventData) : Except String Unit := do
  let expectedRetry := previousRetry history data.chain + 1
  require (decide (data.retry = expectedRetry))
    s!"llm/retry retry {data.retry} must equal provider policy retry {expectedRetry}"
  match priorPolicyRetry history data.chain with
  | some prior =>
    require (decide (prior.retryId = data.retryId))
      "llm/retry must preserve retryId across one provider-policy chain"
  | none =>
    require (decide (some data.retryId ∉ history.map (·.retryIdOf)))
      s!"llm/retry retryId {data.retryId} is already owned by another chain"

def validateRetry (history : List SessionEvent) (data : LlmRetryEventData) : Except String Unit := do
  require (decide (data.retryId ≠ "")) "llm/retry retryId must be a non-empty string"
  validateFailure data.failure
  require (isSafe data.retry && decide (1 ≤ data.retry)) "llm/retry retry must be a positive safe integer"
  require (decide (data.provider ≠ "")) "llm/retry provider must be a non-empty string"
  validateMode data
  require (inRange 0 maxTimerDelayMs data.delayMs)
    "llm/retry delayMs must be a finite number within 0..2147483647"
  validateTurn history data
  validateStep history data
  require (decide (providerForOpenStep history data.turn data.step = some data.provider))
    s!"llm/retry provider {data.provider} does not match the failed request provider {providerForOpenStep history data.turn data.step}"
  validateChain history data

def scheduled (history : List SessionEvent) (retryId : String) (retry : Nat) :
    Option LlmRetryEventData :=
  history.reverse.findSome? fun event =>
    match event with
    | .retry data => if data.retryId = retryId ∧ data.retry = retry then some data else none
    | _ => none

def SessionEvent.startedOf : SessionEvent → Option (String × Nat)
  | .retryStarted data => some (data.retryId, data.retry)
  | _ => none

def validateStarted (history : List SessionEvent) (data : LlmRetryStartedEventData) :
    Except String Unit := do
  require (decide (data.retryId ≠ "")) "llm/retry-started retryId must be a non-empty string"
  let attempt ← expect (scheduled history data.retryId data.retry)
    "llm/retry-started pairs no prior scheduled attempt"
  require (decide (attempt.turn = data.turn) && decide (attempt.step = data.step))
    "llm/retry-started turn/step must match its scheduled attempt"
  require (decide (some (data.retryId, data.retry) ∉ history.map (·.startedOf)))
    "llm/retry-started repeats one scheduled attempt"

def validate (history : List SessionEvent) : SessionEvent → Except String Unit
  | .retry data => validateRetry history data
  | .retryStarted data => validateStarted history data
  | _ => .ok ()

structure Sample where
  value : ℚ
  nonneg : 0 ≤ value
  le_one : value ≤ 1
  deriving DecidableEq

def localDelay (config : ResolvedRetryBackoff) (retry : Nat) (random : Sample) : Double :=
  let exponent := min (retry - 1) 1024
  let exponential :=
    ((Double.finite config.initialDelayMs).mul (.twoPow exponent)).min (.finite config.maxDelayMs)
  let spread := ((Double.finite 2).mul (.finite config.jitterRatio)).mul (.finite random.value)
  let jitter := ((Double.finite 1).sub (.finite config.jitterRatio)).add spread
  (exponential.mul jitter).min (.finite config.maxDelayMs)

/-- The delay, or nothing where the provider asks a bounded policy to wait for too long. -/
def delayFor (policy : ResolvedRetryPolicy) (failure : LlmFailure) (retry : Nat) (random : Sample) :
    Option Double :=
  match failure.providerRetryAfterMs with
  | some (.finite after) =>
    if 0 < after then
      if policy.backoff.maxDelayMs < after then
        if policy.mode = .always then some (localDelay policy.backoff retry random) else none
      else some (.finite after)
    else some (localDelay policy.backoff retry random)
  | _ => some (localDelay policy.backoff retry random)

inductive DownstreamOutcome
  | retry | declined | error
  deriving DecidableEq, Repr

def takesOver (policy : ResolvedRetryPolicy) (failure : LlmFailure)
    (downstream : DownstreamOutcome) : Bool :=
  match policy.mode with
  | .always => decide (downstream ≠ .retry)
  | .normal _ => decide (failure.code ∈ policy.retryableCodes)

def withinBudget (policy : ResolvedRetryPolicy) (previous : Nat) : Bool :=
  match policy.mode with
  | .normal maxRetries => decide (previous < maxRetries)
  | .always => true

def recover (events : List SessionEvent) (turn step : Nat) (provider : String) (failure : LlmFailure)
    (retryPolicy : Option ResolvedRetryPolicy) (aborted : Bool) (downstream : DownstreamOutcome)
    (randomUUID : String) (random : Sample) : Option LlmRetryEventData := do
  let policy ← retryPolicy
  let policyKey := retryPolicyKey policy
  let chain : Chain := ⟨turn, step, provider, policyKey⟩
  let previous := previousRetry events chain
  if takesOver policy failure downstream && withinBudget policy previous && !aborted then
    let retry := previous + 1
    let retryId := match priorPolicyRetry events chain with
      | some prior => prior.retryId
      | none => randomUUID
    let delayMs ← delayFor policy failure retry random
    return ⟨retryId, turn, step, provider, policy.mode, policyKey, retry, delayMs, failure⟩
  else none

inductive Phase
  | idle
  | turn (turn : Nat)
  | step (turn step : Nat)
  deriving DecidableEq, Repr

structure RetryState where
  log : List SessionEvent
  phase : Phase
  request : Option String
  waiting : Option LlmRetryStartedEventData

inductive RetryOp
  | turnStart (turn : Nat)
  | stepStart (step : Nat)
  | request (provider : String) (logsHeader : Bool)
  | other
  | fail (failure : LlmFailure) (retryPolicy : Option ResolvedRetryPolicy) (aborted : Bool)
      (downstream : DownstreamOutcome) (randomUUID : String) (random : Sample)
  | elapse
  | cancel
  | stepEnd
  | turnEnd

def RetryState.append (state : RetryState) (event : SessionEvent) : RetryState :=
  { state with log := state.log ++ [event] }

def RetryState.fail (state : RetryState) (turn step : Nat) (provider : String) (failure : LlmFailure)
    (retryPolicy : Option ResolvedRetryPolicy) (aborted : Bool) (downstream : DownstreamOutcome)
    (randomUUID : String) (random : Sample) : RetryState :=
  match recover state.log turn step provider failure retryPolicy aborted downstream randomUUID
    random with
  | some data =>
    { state.append (.retry data) with
      request := none
      waiting := some ⟨data.retryId, turn, step, data.retry⟩ }
  | none => { state with request := none }

/-- One step: the loop appends its boundaries and headers around the requests, and waits for the
recovery of a failed one. -/
def RetryState.transition (state : RetryState) (op : RetryOp) : Option RetryState :=
  match op, state.phase, state.waiting with
  | .turnStart turn, .idle, none => some { state.append (.turnStart turn) with phase := .turn turn }
  | .stepStart step, .turn turn, none =>
    some { state.append (.stepStart turn step) with phase := .step turn step }
  | .request provider logsHeader, .step _ _, none =>
    if provider = "" then none
    else if logsHeader = true then
      some { state.append (.requestHeader provider) with request := some provider }
    else if lastHeader state.log = some provider then some { state with request := some provider }
    else none
  | .other, _, _ => some (state.append .other)
  | .fail failure retryPolicy aborted downstream randomUUID random, .step turn step, none =>
    match state.request with
    | some provider =>
      -- a random id is new to the log
      if randomUUID = "" ∨ some randomUUID ∈ state.log.map (·.retryIdOf) then none
      else
        some (state.fail turn step provider failure retryPolicy aborted downstream randomUUID random)
    | none => none
  | .elapse, _, some data => some { state.append (.retryStarted data) with waiting := none }
  | .cancel, _, some _ => some { state with waiting := none }
  | .stepEnd, .step turn step, none =>
    some { state.append (.stepEnd turn step) with phase := .turn turn, request := none }
  | .turnEnd, .turn turn, none => some { state.append (.turnEnd turn) with phase := .idle }
  | _, _, _ => none

end Harness.LlmRetry
