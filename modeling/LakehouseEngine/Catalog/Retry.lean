import LakehouseEngine.Data.BoundedLoop
import LakehouseEngine.Text.Numeral

/-!
# Retries of catalog requests

Every catalog request goes through `send_capped`.  It repeats a request after a transient
failure, as often as the policy allows and only while the next answer is due within the window
that began with the first attempt.

The environment is given by what happens at each attempt: the answer, the clocks and the jitter.
Durations and instants are in nanoseconds.
-/

namespace LakehouseEngine.CatalogHttp

/-! ## Time -/

def second : ℕ := 10 ^ 9

/-- `Duration::MAX`. -/
def durationMax : ℕ := 2 ^ 64 * second - 1

/-- The last instant of the monotonic clock.  An addition beyond it panics. -/
def instantMax : ℕ := 2 ^ 63 * second - 1

def saturate (duration : ℕ) : ℕ := min duration durationMax

structure RetryPolicy where
  attempts : ℕ
  connectTimeout : ℕ
  readTimeout : ℕ
  retryWindow : ℕ
  backoffBase : ℕ

def catalogPolicy : RetryPolicy where
  attempts := 5
  connectTimeout := 10 * second
  readTimeout := 10 * second
  retryWindow := 30 * second
  backoffBase := 250 * 10 ^ 6

/-! ## Failures -/

inductive IoKind where
  | connectionRefused | connectionReset | connectionAborted | brokenPipe | unexpectedEof | other
  deriving DecidableEq

/-- One cause in the chain of an error. -/
inductive Cause where
  | tls
  | io (kind : IoKind)
  | http (incompleteMessage : Bool)
  | other
  deriving DecidableEq

structure TransportError where
  isTimeout : Bool
  causes : List Cause

/-- A broken-off answer has its status. -/
structure HttpError where
  error : TransportError
  status : Option ℕ

def Cause.cutsConnection : Cause → Bool
  | .io kind => kind ≠ .other
  | .http incompleteMessage => incompleteMessage
  | .tls | .other => false

/-- A TLS failure anywhere in the chain is final. -/
def isTransientCauseChain (cut : Bool) : List Cause → Bool
  | [] => cut
  | .tls :: _ => false
  | cause :: causes => isTransientCauseChain (cut || cause.cutsConnection) causes

def isTransientTransportFailure (error : TransportError) : Bool :=
  error.isTimeout || isTransientCauseChain false error.causes

def HttpError.isTransient (error : HttpError) : Bool :=
  error.status.isNone && isTransientTransportFailure error.error

def isTransientStatus (status : ℕ) : Bool := [408, 429, 502, 503, 504].contains status

/-! ## One exchange -/

abbrev Headers := List (String × List UInt8)

structure Answer where
  status : ℕ
  headers : Headers
  body : List UInt8
  cut : Bool

abbrev Outcome := Except HttpError Answer

/-- The answer of a server: its head, the chunks of its body and the failure that ends them. -/
structure Response where
  status : ℕ
  headers : Headers
  chunks : List (List UInt8)
  broken : Option TransportError

def readBody (maxBytes : ℕ) (broken : Option TransportError) (body : List UInt8) :
    List (List UInt8) → Except TransportError (List UInt8 × Bool)
  | [] =>
      match broken with
      | some error => .error error
      | none => .ok (body, false)
  | chunk :: chunks =>
      let room := maxBytes - body.length
      if room < chunk.length then .ok (body ++ chunk.take room, true)
      else readBody maxBytes broken (body ++ chunk) chunks

def exchange (maxBytes : ℕ) : Except TransportError Response → Outcome
  | .error error => .error ⟨error, none⟩
  | .ok response =>
      match readBody maxBytes response.broken [] response.chunks with
      | .error error => .error ⟨error, some response.status⟩
      | .ok (body, cut) => .ok ⟨response.status, response.headers, body, cut⟩

/-! ## The wait before a retry -/

section Wait

-- `DateTime::from_str` of an IMF-fixdate, as an instant of the system clock.
variable (httpDate : List Char → Option ℤ)

/-- Text of visible ASCII characters, spaces and tabs. -/
def headerText (value : List UInt8) : Option (List Char) :=
  if value.all fun byte => (32 ≤ byte ∧ byte < 127) ∨ byte = 9 then
    some (value.map fun byte => Char.ofNat byte.toNat)
  else none

def retryAfterWait (value : List Char) (now : ℤ) : Option ℕ :=
  let value := WhiteSpace.trim value
  if value ≠ [] ∧ Text.allDigits value then
    some (if Text.natValue value < 2 ^ 64 then Text.natValue value * second else durationMax)
  else (httpDate value).map fun stated => (stated - now).toNat

def statedWait (headers : Headers) (now : ℤ) : Option ℕ :=
  ((headers.lookup "retry-after").bind headerText).bind fun value =>
    retryAfterWait httpDate value now

/-- A wait between half and all of the doubled base, placed by the jitter. -/
def backoffWait (base retry jitter : ℕ) : ℕ :=
  let ceiling := saturate (base * min (2 ^ (retry - 1)) (2 ^ 32 - 1))
  let floor := ceiling / 2
  let spread := (ceiling - floor) * jitter / (2 ^ 32 - 1)
  saturate (floor + min spread (2 ^ 64 - 1))

def chosenWait (requested : Option ℕ) (backoff timeLeft attemptRoom : ℕ) : Option ℕ :=
  let wait := requested.getD backoff
  if wait ≤ timeLeft ∧ attemptRoom ≤ timeLeft - wait then some wait else none

/-- What happens at an attempt: the answer, the two clocks when the retry is decided, the jitter. -/
structure Moment where
  execution : Except TransportError Response
  decidedAt : ℕ
  systemNow : ℤ
  jitter : ℕ

def waitBeforeRetry (policy : RetryPolicy) (retry : ℕ) (outcome : Outcome) (windowEnd : ℕ)
    (moment : Moment) : Option ℕ :=
  let choose (requested : Option ℕ) :=
    chosenWait requested (backoffWait policy.backoffBase retry moment.jitter)
      (windowEnd - moment.decidedAt) policy.readTimeout
  match outcome with
  | .ok answer =>
      if isTransientStatus answer.status then
        choose (statedWait httpDate answer.headers moment.systemNow)
      else none
  | .error error => if error.isTransient then choose none else none

end Wait

/-! ## The loop -/

/-- An exchange that was made, and the wait after it when a retry follows. -/
structure Exchange where
  outcome : Outcome
  wait : Option ℕ

section Loop

variable {R : Type} (tryClone : R → Option R) (httpDate : List Char → Option ℤ)
    (policy : RetryPolicy)
  (maxBytes windowEnd : ℕ) (environment : ℕ → Moment)

/-- One round of `send_capped`, after `round` attempts. -/
def attempt (round : ℕ) (request : R) : Exchange × (R ⊕ Outcome) :=
  let attemptsMade := round + 1
  let resend := if attemptsMade < policy.attempts then tryClone request else none
  let moment := environment round
  let outcome := exchange maxBytes moment.execution
  match resend with
  | none => (⟨outcome, none⟩, .inr outcome)
  | some resend =>
      match waitBeforeRetry httpDate policy attemptsMade outcome windowEnd moment with
      | none => (⟨outcome, none⟩, .inr outcome)
      | some wait => (⟨outcome, some wait⟩, .inl resend)

/-- Everything one round can do. -/
theorem attempt_cases (round : ℕ) (request : R) :
    let outcome := exchange maxBytes (environment round).execution
    attempt tryClone httpDate policy maxBytes windowEnd environment round request =
        (⟨outcome, none⟩, .inr outcome) ∨
      ∃ resend wait, round + 1 < policy.attempts ∧ tryClone request = some resend ∧
        waitBeforeRetry httpDate policy (round + 1) outcome windowEnd
          (environment round) = some wait ∧
        attempt tryClone httpDate policy maxBytes windowEnd environment round request =
          (⟨outcome, some wait⟩, .inl resend) := by
  intro outcome
  unfold attempt
  by_cases allowed : round + 1 < policy.attempts
  · simp only [if_pos allowed]
    cases cloned : tryClone request with
    | none => exact .inl rfl
    | some resend =>
        dsimp only
        cases waits : waitBeforeRetry httpDate policy (round + 1) outcome windowEnd
          (environment round) with
        | none => exact .inl rfl
        | some wait => exact .inr ⟨resend, wait, allowed, rfl, rfl, rfl⟩
  · simp only [if_neg allowed]
    exact .inl rfl

def retryLoop : BoundedLoop R Exchange Outcome where
  step := attempt tryClone httpDate policy maxBytes windowEnd environment
  bound := policy.attempts - 1
  stops round request past := by
    obtain returned | ⟨-, -, allowed, -⟩ :=
      attempt_cases tryClone httpDate policy maxBytes windowEnd environment round request
    · exact ⟨_, congrArg Prod.snd returned⟩
    · omega

end Loop

/-- The exchanges that are made, each with its request, and the outcome that is returned.  `none`
where the end of the window is no instant: the addition panics and nothing is sent. -/
def sendCapped {R : Type} (tryClone : R → Option R) (httpDate : List Char → Option ℤ)
    (policy : RetryPolicy)
    (request : R) (maxBytes start : ℕ) (environment : ℕ → Moment) :
    Option (List (R × Exchange) × Outcome) :=
  if start + policy.retryWindow ≤ instantMax then
    some ((retryLoop tryClone httpDate policy maxBytes (start + policy.retryWindow) environment).run
      0 request)
  else none

/-! ## What is sent, waited and kept -/

/-- An outcome after which the request may succeed. -/
def IsTransient : Outcome → Prop
  | .ok answer => answer.status ∈ [408, 429, 502, 503, 504]
  | .error error => error.isTransient = true

/-- The wait that the headers of an answer state: whole seconds, or the time up to a date. -/
inductive States (httpDate : List Char → Option ℤ) (now : ℤ) : Outcome → ℕ → Prop where
  | seconds {answer : Answer} {value : List UInt8} {text : List Char} :
      answer.headers.lookup "retry-after" = some value → headerText value = some text →
      WhiteSpace.trim text ≠ [] → Text.allDigits (WhiteSpace.trim text) = true →
      States httpDate now (.ok answer) (Text.natValue (WhiteSpace.trim text) * second)
  | date {answer : Answer} {value : List UInt8} {text : List Char} {stated : ℤ} :
      answer.headers.lookup "retry-after" = some value → headerText value = some text →
      (WhiteSpace.trim text = [] ∨ Text.allDigits (WhiteSpace.trim text) = false) →
        httpDate (WhiteSpace.trim text) = some stated →
      States httpDate now (.ok answer) (stated - now).toNat

section Facts

variable {httpDate : List Char → Option ℤ} {policy : RetryPolicy}

theorem chosenWait_eq_some {requested : Option ℕ} {backoff timeLeft attemptRoom wait : ℕ} :
    chosenWait requested backoff timeLeft attemptRoom = some wait ↔
      requested.getD backoff = wait ∧ wait + attemptRoom ≤ timeLeft := by
  simp only [chosenWait, Option.ite_none_right_eq_some, Option.some.injEq]
  constructor
  · rintro ⟨⟨fits, room⟩, rfl⟩
    exact ⟨rfl, by omega⟩
  · rintro ⟨rfl, fits⟩
    exact ⟨⟨by omega, by omega⟩, rfl⟩

/-- A stated wait is requested, if need be cut to the longest duration. -/
theorem statedWait_of_states {now : ℤ} {answer : Answer} {stated : ℕ}
    (states : States httpDate now (.ok answer) stated) :
    ∃ requested, statedWait httpDate answer.headers now = some requested ∧
      (stated ≤ requested ∨ requested = durationMax) := by
  cases states with
  | @seconds answer value text found read nonempty digits =>
      have asked : retryAfterWait httpDate text now = some
          (if Text.natValue (WhiteSpace.trim text) < 2 ^ 64 then
            Text.natValue (WhiteSpace.trim text) * second
            else durationMax) := if_pos ⟨nonempty, digits⟩
      refine ⟨_, by rw [statedWait, found, Option.bind_some, read, Option.bind_some, asked], ?_⟩
      split
      · exact .inl le_rfl
      · exact .inr rfl
  | @date answer value text stated found read other parsed =>
      have unlike : ¬(WhiteSpace.trim text ≠ [] ∧
        Text.allDigits (WhiteSpace.trim text) = true) := by
        rintro ⟨nonempty, digits⟩
        rcases other with empty | mixed
        · exact nonempty empty
        · rw [digits] at mixed
          cases mixed
      have asked : retryAfterWait httpDate text now = some (stated - now).toNat := by
        rw [retryAfterWait, if_neg unlike, parsed, Option.map_some]
      refine ⟨_, ?_, .inl le_rfl⟩
      rw [statedWait, found, Option.bind_some, read, Option.bind_some, asked]

theorem waitBeforeRetry_eq_some {retry : ℕ} {outcome : Outcome} {windowEnd wait : ℕ}
    {moment : Moment}
    (within : windowEnd ≤ instantMax)
    (waits : waitBeforeRetry httpDate policy retry outcome windowEnd moment = some wait) :
    IsTransient outcome ∧ wait + policy.readTimeout ≤ windowEnd - moment.decidedAt ∧
      ∀ stated, States httpDate moment.systemNow outcome stated → stated ≤ wait := by
  cases outcome with
  | error error =>
      simp only [waitBeforeRetry, Option.ite_none_right_eq_some, chosenWait_eq_some] at waits
      refine ⟨waits.1, waits.2.2, ?_⟩
      intro stated states
      cases states
  | ok answer =>
      simp only [waitBeforeRetry, Option.ite_none_right_eq_some, chosenWait_eq_some] at waits
      obtain ⟨transient, chosen, fits⟩ := waits
      refine ⟨List.contains_iff_mem.mp transient, fits, ?_⟩
      intro stated states
      obtain ⟨requested, found, reached⟩ := statedWait_of_states states
      rw [found, Option.getD_some] at chosen
      subst chosen
      rcases reached with reached | longest
      · exact reached
      · -- The longest duration does not fit before any instant.
        have bound : instantMax < durationMax := by decide
        omega

/-- The kept bytes are the first ones of the body, at most as many as allowed. -/
theorem readBody_eq_ok {maxBytes : ℕ} {broken : Option TransportError} {body kept : List UInt8}
    {chunks : List (List UInt8)} {cut : Bool} (fits : body.length ≤ maxBytes)
    (read : readBody maxBytes broken body chunks = .ok (kept, cut)) :
    kept.length ≤ maxBytes ∧ kept <+: body ++ chunks.flatten ∧
      (cut = false → kept = body ++ chunks.flatten ∧ broken = none) := by
  induction chunks generalizing body with
  | nil =>
      cases broken with
      | some error => cases read
      | none =>
          cases read
          simp [fits]
  | cons chunk chunks ih =>
      rw [readBody] at read
      split at read
      · next exceeds =>
          cases read
          refine ⟨?_, ?_, by simp⟩
          · rw [List.length_append, List.length_take]
            omega
          · rw [List.flatten_cons, List.prefix_append_right_inj]
            exact ( List.take_prefix _ _).trans (List.prefix_append _ _)
      · next room =>
          have longer : (body ++ chunk).length ≤ maxBytes := by
            rw [List.length_append]
            omega
          have rest := ih longer read
          rwa [List.append_assoc, ← List.flatten_cons] at rest

theorem exchange_body {maxBytes : ℕ} {execution : Except TransportError Response} {answer : Answer}
    (answered : exchange maxBytes execution = .ok answer) :
    ∃ response, execution = .ok response ∧ answer.status = response.status ∧
      answer.headers = response.headers ∧ answer.body.length ≤ maxBytes ∧
      answer.body <+: response.chunks.flatten ∧
      (answer.cut = false → answer.body = response.chunks.flatten) := by
  cases execution with
  | error error => cases answered
  | ok response =>
      rw [exchange] at answered
      cases read : readBody maxBytes response.broken [] response.chunks with
      | error error =>
          rw [read] at answered
          cases answered
      | ok result =>
          obtain ⟨body, cut⟩ := result
          rw [read] at answered
          cases answered
          obtain ⟨short, kept, whole⟩ := readBody_eq_ok (Nat.zero_le _) read
          exact ⟨response, rfl, rfl, rfl, short, kept, fun uncut => (whole uncut).1⟩

end Facts

/-! ## Whole runs -/

/-- What a run may do under a policy. -/
structure RespectsPolicy {R : Type} (tryClone : R → Option R) (httpDate : List Char → Option ℤ)
    (policy : RetryPolicy) (request : R) (maxBytes start : ℕ) (environment : ℕ → Moment)
    (made : List (R × Exchange)) (returned : Outcome) : Prop where
  first : made.head?.map Prod.fst = some request
  attempts : made.length ≤ max policy.attempts 1
  /-- Each exchange is the one its attempt has in the environment. -/
  exchanged : ∀ index entry, made[index]? = some entry →
    entry.2.outcome = exchange maxBytes (environment index).execution
  /-- A retry follows only a transient outcome, sends a clone, and begins only when its answer is
  due within the window. -/
  retried : ∀ index entry following, made[index]? = some entry → made[index + 1]? = some following →
    IsTransient entry.2.outcome ∧ tryClone entry.1 = some following.1 ∧
    ∃ wait, entry.2.wait = some wait ∧
      wait + policy.readTimeout ≤ start + policy.retryWindow - (environment index).decidedAt ∧
      ∀ stated, States httpDate (environment index).systemNow entry.2.outcome stated → stated ≤ wait
  uncloned : tryClone request = none → made.length = 1
  last : ∃ before entry, made = before ++ [entry] ∧ entry.2.outcome = returned
  kept : ∀ entry ∈ made, ∀ answer, entry.2.outcome = .ok answer → answer.body.length ≤ maxBytes

theorem respectsPolicy_run {R : Type} {tryClone : R → Option R} {httpDate : List Char → Option ℤ}
    {policy : RetryPolicy} {request : R} {maxBytes start : ℕ} {environment : ℕ → Moment}
    (representable : start + policy.retryWindow ≤ instantMax) {made : List (R × Exchange)}
    {returned : Outcome}
    (runs :
      (retryLoop tryClone httpDate policy maxBytes (start + policy.retryWindow) environment).Runs 0
      request made returned) :
    RespectsPolicy tryClone httpDate policy request maxBytes start environment made returned := by
  set loop := retryLoop tryClone httpDate policy maxBytes (start + policy.retryWindow) environment
  have step := attempt_cases tryClone httpDate policy maxBytes
    (start + policy.retryWindow) environment
  have exchanged : ∀ index entry, made[index]? = some entry →
      entry.2.outcome = exchange maxBytes (environment index).execution := by
    intro index entry found
    have event := runs.event found
    rw [Nat.zero_add] at event
    obtain stopped | ⟨resend, wait, -, -, -, went⟩ := step index entry.1
    · rw [← event, show loop.step index entry.1 = _ from stopped]
    · rw [← event, show loop.step index entry.1 = _ from went]
  have retried : ∀ index entry following, made[index]? = some entry → made[index + 1]? =
    some following →
      IsTransient entry.2.outcome ∧ tryClone entry.1 = some following.1 ∧
      ∃ wait, entry.2.wait = some wait ∧
        wait + policy.readTimeout ≤ start + policy.retryWindow - (environment index).decidedAt ∧
        ∀ stated, States httpDate (environment index).systemNow entry.2.outcome stated →
          stated ≤ wait := by
    intro index entry following found foundNext
    have continued := runs.continued found foundNext
    rw [Nat.zero_add] at continued
    obtain stopped | ⟨resend, wait, -, cloned, waits, went⟩ := step index entry.1
    · rw [show loop.step index entry.1 = _ from stopped] at continued
      cases congrArg Prod.snd continued
    · rw [show loop.step index entry.1 = _ from went] at continued
      obtain ⟨event, next⟩ := Prod.mk.inj continued
      obtain rfl := Sum.inl.inj next
      have facts := waitBeforeRetry_eq_some representable waits
      rw [← exchanged index entry found] at facts
      exact ⟨facts.1, cloned, wait, by rw [← event], facts.2⟩
  refine ⟨?_, ?_, exchanged, retried, ?_, ?_, ?_⟩
  · obtain ⟨event, rest, rfl⟩ := runs.head
    rfl
  · have bounded := runs.length_le
    change made.length ≤ policy.attempts - 1 - 0 + 1 at bounded
    omega
  · intro unclonable
    obtain ⟨event, rest, rfl⟩ := runs.head
    cases rest with
    | nil => rfl
    | cons following rest =>
        obtain ⟨-, cloned, -⟩ := retried 0 _ following rfl rfl
        rw [unclonable] at cloned
        cases cloned
  · obtain ⟨before, entry, rfl, ended⟩ := runs.last
    refine ⟨before, entry, rfl, ?_⟩
    rw [Nat.zero_add] at ended
    obtain stopped | ⟨resend, wait, -, -, -, went⟩ := step before.length entry.1
    · rw [show loop.step before.length entry.1 = _ from stopped] at ended
      obtain ⟨event, result⟩ := Prod.mk.inj ended
      rw [← event]
      exact Sum.inr.inj result
    · rw [show loop.step before.length entry.1 = _ from went] at ended
      cases congrArg Prod.snd ended
  · intro entry member answer answered
    obtain ⟨index, found⟩ := List.getElem?_of_mem member
    rw [exchanged index entry found] at answered
    obtain ⟨-, -, -, -, short, -⟩ := exchange_body answered
    exact short

/-- A request is answered wherever the window ends at an instant, and every run respects its policy,
which allows at least one attempt. -/
theorem catalog_retries_respect_policy {R : Type} (tryClone : R → Option R)
    (httpDate : List Char → Option ℤ) (policy : RetryPolicy) (request : R) (maxBytes start : ℕ)
    (environment : ℕ → Moment) :
    (start + policy.retryWindow ≤ instantMax →
      (sendCapped tryClone httpDate policy request maxBytes start environment).isSome) ∧
    ∀ made returned,
      sendCapped tryClone httpDate policy request maxBytes start environment =
        some (made, returned) →
        RespectsPolicy tryClone httpDate policy request maxBytes start environment made
          returned := by
  constructor
  · intro representable
    rw [sendCapped, if_pos representable]
    rfl
  · intro made returned sent
    simp only [sendCapped, Option.ite_none_right_eq_some, Option.some.injEq] at sent
    obtain ⟨representable, ran⟩ := sent
    have runs := (retryLoop tryClone httpDate policy maxBytes (start + policy.retryWindow)
      environment).runs_run 0 request
    rw [ran] at runs
    exact respectsPolicy_run representable runs

/-- A catalog that is always overloaded is asked five times at most. -/
theorem catalog_retries_respect_policy_overloaded :
    ∃ made returned, sendCapped (R := Unit) some (fun _ => none) catalogPolicy () 4096 0
        (fun _ => ⟨.ok ⟨503, [], [], none⟩, 0, 0, 0⟩) = some (made, returned) ∧
          made.length ≤ 5 := by
  have facts := catalog_retries_respect_policy
    (R := Unit) some (fun _ => none) catalogPolicy () 4096 0
    fun _ => ⟨.ok ⟨503, [], [], none⟩, 0, 0, 0⟩
  obtain ⟨⟨made, returned⟩, sent⟩ := Option.isSome_iff_exists.mp (facts.1 (by decide))
  exact ⟨made, returned, sent, (facts.2 made returned sent).attempts⟩

/-- A policy that allows no attempt is not respected: the first one is always made. -/
theorem first_attempt_is_always_made :
    ∃ made returned, sendCapped (R := Unit) some (fun _ => none)
        { catalogPolicy with attempts := 0 } () 4096 0
        (fun _ => ⟨.ok ⟨200, [], [], none⟩, 0, 0, 0⟩) = some (made, returned) ∧
          ¬made.length ≤ 0 := by
  refine ⟨_, _, if_pos (by decide), ?_⟩
  obtain ⟨event, rest, made⟩ := ((retryLoop (R := Unit) some (fun _ => none)
    { catalogPolicy with attempts := 0 } 4096 (0 + catalogPolicy.retryWindow)
    fun _ => ⟨.ok ⟨200, [], [], none⟩, 0, 0, 0⟩).runs_run 0 ()).head
  intro few
  have empty := List.length_eq_zero_iff.mp (Nat.le_zero.mp few)
  exact List.cons_ne_nil _ _ (made.symm.trans empty)

end LakehouseEngine.CatalogHttp
