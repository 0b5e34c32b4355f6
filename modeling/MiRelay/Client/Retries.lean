import MiRelay.Client.Sync

/-!
# Bounded retries

Three loops repeat what a request or a transfer does until it succeeds or the
policy of the source gives no further delay. The policy doubles its base delay
with each failure, up to its maximum, and draws the waiting time from the upper
half; what a server asks for instead is cut off at the same maximum. Durations and
counters are machine integers, hence each operation at their limits is its own
definition, with the panic that it can end in.
-/

namespace MiRelay

/-- A time span, with nanosecond precision and 64-bit seconds. -/
structure Duration where
  nanos : Nat
  bound : nanos < 2 ^ 64 * 10 ^ 9
  deriving DecidableEq

namespace Duration

def zero : Duration := ⟨0, by decide⟩

/-- `Duration::MAX`. -/
def maximum : Duration := ⟨2 ^ 64 * 10 ^ 9 - 1, by decide⟩

/-- `from_millis`, of a 64-bit number. -/
def fromMillis (millis : Nat) (h : millis < 2 ^ 64) : Duration := ⟨millis * 10 ^ 6, by omega⟩

def asMillis (duration : Duration) : Nat := duration.nanos / 10 ^ 6

def saturatingMul (duration : Duration) (factor : Nat) : Duration :=
  if h : duration.nanos * factor < 2 ^ 64 * 10 ^ 9 then ⟨duration.nanos * factor, h⟩ else maximum

def min (a b : Duration) : Duration := if a.nanos ≤ b.nanos then a else b

theorem min_le_right (a b : Duration) : (a.min b).nanos ≤ b.nanos := by
  rw [min]
  split_ifs with h
  · exact h
  · exact Nat.le_refl _

theorem min_le_left (a b : Duration) : (a.min b).nanos ≤ a.nanos := by
  rw [min]
  split_ifs with h
  · exact Nat.le_refl _
  · omega

end Duration

/-- A cause in the chain of an error. -/
inductive Cause
  /-- A `RetryableHttpError`. -/
  | http (message : String) (retryAfter : Option Duration)
  /-- An input error, with the `RetryableHttpError` it may hold. -/
  | io (message : String) (inner : Option (String × Option Duration))
  | other (message : String)
  deriving DecidableEq

/-- An error, the outermost cause first. -/
abbrev ErrorChain : Type := List Cause

/-- `with_context`. -/
def withContext (message : String) (error : ErrorChain) : ErrorChain := .other message :: error

/-- `retryable_http_error`: the delay that the first one in the chain carries. -/
def retryableHttpError (error : ErrorChain) : Option (Option Duration) :=
  error.findSome? fun
    | .http _ retryAfter => some retryAfter
    | .io _ inner => inner.map (·.2)
    | .other _ => none

def maxHttpRetryAttempts : Nat := 10
def maxHttpRetryDelayMilliseconds : Nat := 60000

/-- A policy that `HttpRetryPolicy::new` accepts. -/
structure HttpRetryPolicy where
  maxAttempts : Nat
  baseDelay : Duration
  maxDelay : Duration
  attempts_pos : 0 < maxAttempts
  attempts_le : maxAttempts ≤ maxHttpRetryAttempts
  base_le : baseDelay.nanos ≤ maxDelay.nanos
  max_le : maxDelay.nanos ≤ maxHttpRetryDelayMilliseconds * 10 ^ 6

/-- `HttpRetryPolicy::new`. -/
def HttpRetryPolicy.new (maxAttempts : Nat) (baseDelay maxDelay : Duration) :
    Except String HttpRetryPolicy :=
  if hattempts : maxAttempts = 0 ∨ maxHttpRetryAttempts < maxAttempts then
    .error s!"HTTP retry attempts must be between 1 and {maxHttpRetryAttempts}"
  else if hbase : maxDelay.nanos < baseDelay.nanos then
    .error "HTTP retry maximum delay must not be shorter than its base delay"
  else if hmax : maxHttpRetryDelayMilliseconds * 10 ^ 6 < maxDelay.nanos then
    .error s!"HTTP retry maximum delay must not exceed {maxHttpRetryDelayMilliseconds} milliseconds"
  else
    .ok ⟨maxAttempts, baseDelay, maxDelay, by omega, by omega, by omega, by omega⟩

/-- The panics of a delay or of a counter. -/
inductive RetryPanic
  | emptyRange
  | overflow
  deriving DecidableEq, Repr

/-- `checked_shl` of a 32-bit number. -/
def checkedShl (n exponent : Nat) : Option Nat :=
  if exponent < 32 then some (n * 2 ^ exponent % 2 ^ 32) else none

/-- A 64-bit number that a wider one fits in. -/
def tryFromU64 (n : Nat) : Option Nat := if n < 2 ^ 64 then some n else none

/-- A random number of a range, from one of all. -/
def drawFrom (random low high : Nat) : Except RetryPanic Nat :=
  if low ≤ high then .ok (low + random % (high - low + 1)) else .error .emptyRange

namespace HttpRetryPolicy

variable (policy : HttpRetryPolicy)

/-- The exponent behind so many failures. -/
def exponent (failed : Nat) : Nat := min (failed - 1) 31

/-- The longest delay behind so many failures. -/
def ceiling (failed : Nat) : Duration :=
  let multiplier := (checkedShl 1 (exponent failed)).getD (2 ^ 32 - 1)
  (policy.baseDelay.saturatingMul multiplier).min policy.maxDelay

/-- `delay_after`; `random` decides what is drawn. -/
def delayAfter (random : Nat) (error : ErrorChain) (failed : Nat) :
    Except RetryPanic (Option Duration) :=
  if policy.maxAttempts ≤ failed then .ok none
  else
    match retryableHttpError error with
    | none => .ok none
    | some (some delay) => .ok (some (delay.min policy.maxDelay))
    | some none =>
      let ceilingMillis := (tryFromU64 (policy.ceiling failed).asMillis).getD (2 ^ 64 - 1)
      if ceilingMillis ≤ 1 then .ok (some (policy.ceiling failed))
      else
        match drawFrom random (ceilingMillis / 2) ceilingMillis with
        | .error panic => .error panic
        | .ok millis =>
          if h : millis < 2 ^ 64 then .ok (some (.fromMillis millis h)) else .error .overflow

end HttpRetryPolicy

/-- `payload_retry_delay`: that of the policy for an HTTP source, and none for another one. -/
def payloadRetryDelay (policy : Option HttpRetryPolicy) (random : Nat) (error : ErrorChain)
    (failed : Nat) : Except RetryPanic (Option Duration) :=
  match policy with
  | some policy => policy.delayAfter random error failed
  | none => .ok none

/-- What a loop does. -/
inductive RetryStep
  | phase (phase : SyncPhase)
  | attempt
  | wait (duration : Duration)
  deriving DecidableEq

/-- How a loop ends. -/
inductive RetryOutcome (α : Type)
  | returned (result : Except ErrorChain α)
  | panicked (panic : RetryPanic)

/-- What distinguishes one loop from the others. -/
structure RetryLoop where
  /-- What is reported before an attempt. -/
  before : List SyncPhase
  /-- What is reported before a waiting time. -/
  between : List SyncPhase
  sleepsZero : Bool
  /-- The counter behind another failure. -/
  count : Nat → Except RetryPanic Nat
  /-- What is returned for the last error. -/
  report : Nat → ErrorChain → ErrorChain
  count_eq : ∀ {failed next}, count failed = .ok next → next < 2 ^ 32 - 1 → next = failed + 1
  count_ok : ∀ {failed}, failed + 1 < 2 ^ 32 → count failed = .ok (failed + 1)

/-- `saturating_add(1)`. -/
def saturatingCount (failed : Nat) : Except RetryPanic Nat := .ok (min (failed + 1) (2 ^ 32 - 1))

/-- `+= 1`, which panics on an overflow. -/
def plainCount (failed : Nat) : Except RetryPanic Nat :=
  if failed + 1 < 2 ^ 32 then .ok (failed + 1) else .error .overflow

/-- The error behind several attempts says how many they were. -/
def reportAttempts (operation : String) (failed : Nat) (error : ErrorChain) : ErrorChain :=
  if 1 < failed then withContext s!"{operation} failed after {failed} attempts" error else error

/-- How many attempts a source grants. -/
def attemptLimit (policy : Option HttpRetryPolicy) : Nat := (policy.map (·.maxAttempts)).getD 1

theorem attemptLimit_le (policy : Option HttpRetryPolicy) : attemptLimit policy ≤ 10 := by
  cases policy with
  | none => decide
  | some policy => exact policy.attempts_le

theorem attemptLimit_pos (policy : Option HttpRetryPolicy) : 0 < attemptLimit policy := by
  cases policy with
  | none => decide
  | some policy => exact policy.attempts_pos

/-- A delay is given only while attempts are left. -/
theorem lt_of_payloadRetryDelay {policy : Option HttpRetryPolicy} {random failed : Nat}
    {error : ErrorChain} {delay : Duration}
    (h : payloadRetryDelay policy random error failed = .ok (some delay)) :
    failed < attemptLimit policy := by
  cases policy with
  | none => simp [payloadRetryDelay] at h
  | some policy =>
    by_contra hge
    have hle : policy.maxAttempts ≤ failed := not_lt.mp hge
    rw [payloadRetryDelay, HttpRetryPolicy.delayAfter, if_pos hle] at h
    simp at h

namespace RetryLoop

/-- The report of an attempt, and the attempt. -/
def steps (loop : RetryLoop) : List RetryStep := loop.before.map .phase ++ [.attempt]

/-- The report of a waiting time, and the sleep. -/
def waits (loop : RetryLoop) (delay : Duration) : List RetryStep :=
  loop.between.map .phase ++ if loop.sleepsZero || delay.nanos != 0 then [.wait delay] else []

/-- The loop behind so many failures. The attempts fail or succeed in any order. -/
def run {α : Type} (loop : RetryLoop) (policy : Option HttpRetryPolicy) (random : Nat → Nat)
    (attempts : Nat → Except ErrorChain α) (failed : Nat) : List RetryStep × RetryOutcome α :=
  match attempts failed with
  | .ok value => (loop.steps, .returned (.ok value))
  | .error error =>
    match _hcount : loop.count failed with
    | .error panic => (loop.steps, .panicked panic)
    | .ok next =>
      match _hdelay : payloadRetryDelay policy (random next) error next with
      | .error panic => (loop.steps, .panicked panic)
      | .ok none => (loop.steps, .returned (.error (loop.report next error)))
      | .ok (some delay) =>
        let rest := run loop policy random attempts next
        (loop.steps ++ loop.waits delay ++ rest.1, rest.2)
termination_by attemptLimit policy - failed
decreasing_by
  have hlt := lt_of_payloadRetryDelay _hdelay
  have hle := attemptLimit_le policy
  have hnext := loop.count_eq _hcount (by omega)
  omega

/-- `with_retry`. -/
def withRetry (operation : String) : RetryLoop where
  before := []
  between := []
  sleepsZero := false
  count := saturatingCount
  report := reportAttempts operation
  count_eq := by
    intro failed next h hlt
    rw [saturatingCount, Except.ok.injEq] at h
    omega
  count_ok := by
    intro failed h
    rw [saturatingCount, Nat.min_eq_left (by omega)]

/-- `receive_delivery_with_retry`. -/
def receiveDeliveryWithRetry (deliveryId : String) : RetryLoop :=
  { withRetry s!"downloading delivery {deliveryId}" with
    before := [.downloading]
    between := [.retrying] }

/-- The download loop of a receiver, in which the phase before the first attempt is reported once
and each waiting time is slept. -/
def download : RetryLoop where
  before := []
  between := [.retrying]
  sleepsZero := true
  count := plainCount
  report := fun _ error => error
  count_eq := by
    intro failed next h _
    rw [plainCount] at h
    split_ifs at h
    exact (Except.ok.inj h).symm
  count_ok := fun h => if_pos h

/-- The loop of one entry. -/
def downloadEntry {α : Type} (policy : Option HttpRetryPolicy) (random : Nat → Nat)
    (attempts : Nat → Except ErrorChain α) : List RetryStep × RetryOutcome α :=
  let result := download.run policy random attempts 0
  (.phase .downloading :: result.1, result.2)

end RetryLoop

section Delays

variable (policy : HttpRetryPolicy) (failed : Nat)

/-- The operations of a delay stay within their types: no shift, product or conversion takes its
fallback, and the range that is drawn from is not empty. -/
structure HttpRetryPolicy.InRange : Prop where
  shift : checkedShl 1 (exponent failed) = some (2 ^ exponent failed)
  product : (policy.baseDelay.saturatingMul (2 ^ exponent failed)).nanos =
    policy.baseDelay.nanos * 2 ^ exponent failed
  millis : tryFromU64 (policy.ceiling failed).asMillis = some (policy.ceiling failed).asMillis
  range : ∀ random, ∃ millis, drawFrom random ((policy.ceiling failed).asMillis / 2)
    (policy.ceiling failed).asMillis = .ok millis ∧ millis ≤ (policy.ceiling failed).asMillis

theorem HttpRetryPolicy.ceiling_le : (policy.ceiling failed).nanos ≤ policy.maxDelay.nanos :=
  Duration.min_le_right _ _

/-- A number of a range is not above its end. -/
theorem drawFrom_ok {low high : Nat} (random : Nat) (h : low ≤ high) :
    ∃ n, drawFrom random low high = .ok n ∧ n ≤ high := by
  have hlt := Nat.mod_lt random (show 0 < high - low + 1 by omega)
  exact ⟨_, if_pos h, by omega⟩

theorem HttpRetryPolicy.inRange : policy.InRange failed := by
  have hexp : exponent failed ≤ 31 := Nat.min_le_right _ _
  have hpow : 2 ^ exponent failed ≤ 2 ^ 31 := Nat.pow_le_pow_right (by decide) hexp
  have hbase : policy.baseDelay.nanos ≤ 60000 * 10 ^ 6 := policy.base_le.trans policy.max_le
  refine ⟨?_, ?_, ?_, fun random => drawFrom_ok random (Nat.div_le_self _ _)⟩
  · rw [checkedShl, if_pos (by omega), Nat.one_mul, Nat.mod_eq_of_lt (by omega)]
  · have hproduct := Nat.mul_le_mul hbase hpow
    rw [Duration.saturatingMul, dif_pos (by omega)]
  · have hceiling : (policy.ceiling failed).nanos ≤ 60000 * 10 ^ 6 :=
      (policy.ceiling_le failed).trans policy.max_le
    exact if_pos (by rw [Duration.asMillis]; omega)

/-- A delay is computed without a panic, and is not above the maximum. -/
theorem HttpRetryPolicy.delayAfter_ok (random : Nat) (error : ErrorChain) :
    ∃ delay, policy.delayAfter random error failed = .ok delay ∧
      ∀ duration, delay = some duration → duration.nanos ≤ policy.maxDelay.nanos := by
  obtain ⟨-, -, hmillis, hrange⟩ := policy.inRange failed
  have hceiling := policy.ceiling_le failed
  unfold delayAfter
  split_ifs with hfailed
  · exact ⟨none, rfl, nofun⟩
  · split
    · exact ⟨none, rfl, nofun⟩
    · rename_i delay _
      refine ⟨_, rfl, fun duration h => ?_⟩
      rw [← Option.some.inj h]
      exact Duration.min_le_right _ _
    · simp only [hmillis, Option.getD_some]
      split_ifs with hsmall
      · refine ⟨_, rfl, fun duration h => ?_⟩
        rw [← Option.some.inj h]
        exact hceiling
      · obtain ⟨millis, hdraw, hle⟩ := hrange random
        have hbound : (policy.ceiling failed).asMillis < 2 ^ 64 := by
          by_contra hge
          rw [tryFromU64, if_neg hge] at hmillis
          contradiction
        simp only [hdraw]
        rw [dif_pos (by omega)]
        refine ⟨_, rfl, fun duration h => ?_⟩
        rw [← Option.some.inj h]
        refine Nat.le_trans ?_ hceiling
        rw [Duration.asMillis] at hle
        simp only [Duration.fromMillis]
        omega

theorem payloadRetryDelay_ok (source : Option HttpRetryPolicy) (random : Nat) (error : ErrorChain) :
    ∃ delay, payloadRetryDelay source random error failed = .ok delay ∧
      ∀ duration, delay = some duration →
        ∃ policy, source = some policy ∧ duration.nanos ≤ policy.maxDelay.nanos := by
  cases source with
  | none => exact ⟨none, rfl, nofun⟩
  | some policy =>
    obtain ⟨delay, hdelay, hle⟩ := policy.delayAfter_ok failed random error
    exact ⟨delay, hdelay, fun duration h => ⟨policy, rfl, hle duration h⟩⟩

end Delays

namespace HttpRetryPolicy

/-- Each policy is one that is accepted. -/
theorem new_self (policy : HttpRetryPolicy) :
    HttpRetryPolicy.new policy.maxAttempts policy.baseDelay policy.maxDelay = .ok policy := by
  have hpos := policy.attempts_pos
  have hle := policy.attempts_le
  have hbase := policy.base_le
  have hmax := policy.max_le
  rw [HttpRetryPolicy.new, dif_neg (by omega), dif_neg (by omega), dif_neg (by omega)]

end HttpRetryPolicy

section Runs

variable {α : Type} (loop : RetryLoop) (source : Option HttpRetryPolicy) (random : Nat → Nat)
  (attempts : Nat → Except ErrorChain α)

/-- What a loop does with a source: so many attempts, of which all but the last one fail, waiting
times below the maximum of the policy, and the result of the last attempt. -/
structure BoundedRetries (report : Nat → ErrorChain → ErrorChain)
    (run : List RetryStep × RetryOutcome α) : Prop where
  waits : ∀ duration, .wait duration ∈ run.1 →
    ∃ policy, source = some policy ∧ duration.nanos ≤ policy.maxDelay.nanos
  ends : ∃ last, last < attemptLimit source ∧ run.1.count .attempt = last + 1 ∧
    (∀ k < last, ∃ error, attempts k = .error error) ∧
    run.2 = .returned ((attempts last).mapError (report (last + 1)))

namespace RetryLoop

variable {loop source random attempts} {failed : Nat} {error : ErrorChain}

theorem count_steps : loop.steps.count .attempt = 1 := by
  simp [steps, List.count_eq_zero]

theorem count_waits (delay : Duration) : (loop.waits delay).count .attempt = 0 := by
  rw [List.count_eq_zero, waits]
  split_ifs <;> simp

theorem wait_notMem_steps (duration : Duration) : .wait duration ∉ loop.steps := by
  simp [steps]

theorem eq_of_wait_mem {duration delay : Duration} (h : .wait duration ∈ loop.waits delay) :
    duration = delay := by
  rw [waits] at h
  split_ifs at h <;> simp_all

theorem run_ok {value : α} (h : attempts failed = .ok value) :
    loop.run source random attempts failed = (loop.steps, .returned (.ok value)) := by
  rw [run]
  simp only [h]

/-- A failure ends the loop or repeats it, as the delay says. -/
theorem run_error {delay : Option Duration} (h : attempts failed = .error error)
    (hfailed : failed + 1 < 2 ^ 32)
    (hdelay : payloadRetryDelay source (random (failed + 1)) error (failed + 1) = .ok delay) :
    loop.run source random attempts failed =
      match delay with
      | none => (loop.steps, .returned (.error (loop.report (failed + 1) error)))
      | some delay =>
        let rest := loop.run source random attempts (failed + 1)
        (loop.steps ++ loop.waits delay ++ rest.1, rest.2) := by
  have hcount := loop.count_ok hfailed
  rw [run]
  simp only [h]
  split
  · rename_i panic hpanic
    rw [hcount] at hpanic
    contradiction
  · rename_i next hnext
    obtain rfl : failed + 1 = next := Except.ok.inj (hcount.symm.trans hnext)
    split
    · rename_i panic hpanic
      rw [hdelay] at hpanic
      contradiction
    · rename_i hnone
      obtain rfl := Except.ok.inj (hdelay.symm.trans hnone)
      rfl
    · rename_i given hsome
      obtain rfl := Except.ok.inj (hdelay.symm.trans hsome)
      rfl

/-- A loop that has failed less often than the source grants ends at an attempt it grants. -/
theorem run_spec (loop : RetryLoop) (random : Nat → Nat) (attempts : Nat → Except ErrorChain α)
    {failed : Nat} (h : failed < attemptLimit source) :
    (∀ duration, .wait duration ∈ (loop.run source random attempts failed).1 →
      ∃ policy, source = some policy ∧ duration.nanos ≤ policy.maxDelay.nanos) ∧
    ∃ last, failed ≤ last ∧ last < attemptLimit source ∧
      (loop.run source random attempts failed).1.count .attempt = last - failed + 1 ∧
      (∀ k, failed ≤ k → k < last → ∃ error, attempts k = .error error) ∧
      (loop.run source random attempts failed).2 =
        .returned ((attempts last).mapError (loop.report (last + 1))) := by
  have hlimit := attemptLimit_le source
  -- The attempts that are left decrease.
  induction hleft : attemptLimit source - failed generalizing failed with
  | zero => omega
  | succ left ih =>
    cases hresult : attempts failed with
    | ok value =>
      rw [run_ok hresult]
      refine ⟨fun duration hmem => absurd hmem (wait_notMem_steps duration), failed, le_refl _, h,
        by rw [count_steps, Nat.sub_self], fun k hge hlt => absurd hlt (by omega), ?_⟩
      rw [hresult]
      rfl
    | error error =>
      obtain ⟨delay, hdelay, hbound⟩ :=
        payloadRetryDelay_ok (failed + 1) source (random (failed + 1)) error
      rw [run_error hresult (by omega) hdelay]
      cases delay with
      | none =>
        refine ⟨fun duration hmem => absurd hmem (wait_notMem_steps duration), failed, le_refl _, h,
          by rw [count_steps, Nat.sub_self], fun k hge hlt => absurd hlt (by omega), ?_⟩
        rw [hresult]
        rfl
      | some delay =>
        have hnext := lt_of_payloadRetryDelay hdelay
        obtain ⟨hwaits, last, hge, hlt, hcount, herrors, hend⟩ := ih hnext (by omega)
        refine ⟨fun duration hmem => ?_, last, by omega, hlt, ?_, fun k hk hklt => ?_, hend⟩
        · rw [List.mem_append, List.mem_append] at hmem
          rcases hmem with (hmem | hmem) | hmem
          · exact absurd hmem (wait_notMem_steps duration)
          · exact hbound duration (congrArg some (eq_of_wait_mem hmem).symm)
          · exact hwaits duration hmem
        · rw [List.count_append, List.count_append, count_steps, count_waits, hcount]
          omega
        · rcases Nat.eq_or_lt_of_le hk with rfl | hk
          · exact ⟨error, hresult⟩
          · exact herrors k hk hklt

/-- A loop is bounded by the policy of its source. -/
theorem run_bounded (loop : RetryLoop) (source : Option HttpRetryPolicy) (random : Nat → Nat)
    (attempts : Nat → Except ErrorChain α) :
    BoundedRetries source attempts loop.report (loop.run source random attempts 0) := by
  obtain ⟨hwaits, last, -, hlt, hcount, herrors, hend⟩ :=
    run_spec loop random attempts (attemptLimit_pos source)
  exact ⟨hwaits, last, hlt, hcount, fun k hk => herrors k (Nat.zero_le k) hk, hend⟩

end RetryLoop

end Runs

/-- Under any policy and with any errors each of the three loops makes at most as many attempts as
the policy grants, waits at most its maximum delay before each next one and returns what the last
attempt did; no operation of a delay leaves its type. -/
theorem retries_bounded {α : Type} (policy : HttpRetryPolicy) (random : Nat → Nat)
    (attempts : Nat → Except ErrorChain α) (operation deliveryId : String) :
    BoundedRetries (some policy) attempts (reportAttempts operation)
      ((RetryLoop.withRetry operation).run (some policy) random attempts 0) ∧
    BoundedRetries (some policy) attempts (reportAttempts s!"downloading delivery {deliveryId}")
      ((RetryLoop.receiveDeliveryWithRetry deliveryId).run (some policy) random attempts 0) ∧
    BoundedRetries (some policy) attempts (fun _ error => error)
      (RetryLoop.downloadEntry (some policy) random attempts) ∧
    ∀ failed, policy.InRange failed ∧ ∀ error, ∃ delay,
      policy.delayAfter (random failed) error failed = .ok delay ∧
      ∀ duration, delay = some duration → duration.nanos ≤ policy.maxDelay.nanos := by
  refine ⟨RetryLoop.run_bounded (.withRetry operation) _ _ _,
    RetryLoop.run_bounded (.receiveDeliveryWithRetry deliveryId) _ _ _, ?_, fun failed =>
    ⟨policy.inRange failed, policy.delayAfter_ok failed (random failed)⟩⟩
  obtain ⟨hwaits, last, hlt, hcount, herrors, hend⟩ :=
    RetryLoop.download.run_bounded (some policy) random attempts
  refine ⟨fun duration hmem => hwaits duration ?_, last, hlt, ?_, herrors, hend⟩
  · exact (List.mem_cons.mp hmem).resolve_left nofun
  · have hphase : RetryStep.phase .downloading ≠ .attempt := nofun
    exact (List.count_cons_of_ne hphase).trans hcount

end MiRelay
