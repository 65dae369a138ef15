import LeadQueue.Python

/-!
# Runtime configuration

`Settings` carries the bounds its fields declare, so a value of the type is one
that the settings class accepts. `validateInvariants` is the startup check; a
process runs only with settings for which it reports nothing.
-/

namespace LeadQueue

structure Settings where
  dbPoolMinSize : ℕ := 2
  dbPoolMaxSize : ℕ := 10
  maxPayloadBytes : ℕ := 256 * 1024
  maxRecipientsPerRequest : ℕ := 50
  connectTimeoutSeconds : ℚ := 5
  readTimeoutSeconds : ℚ := 30
  attemptDeadlineSeconds : ℚ := 45
  retryBaseSeconds : ℚ := 5
  retryFactor : ℚ := 2
  retryCapSeconds : ℚ := 3600
  retryMaxAttempts : ℕ := 34
  retryJitterRatio : ℚ := 1 / 5
  workerConcurrency : ℕ := 32
  workerBatchSize : ℕ := 16
  leaseSeconds : ℚ := 90
  maxClaimsPerOrigin : ℕ := 4
  claimScanMultiplier : ℕ := 5
  defaultStaleMinutes : ℕ := 15
  responseExcerptBytes : ℕ := 2000
  userAgent : PyStr := PyStr.ofString "intake/1.0"
  dbPoolMinSize_pos : 1 ≤ dbPoolMinSize := by decide
  dbPoolMaxSize_pos : 1 ≤ dbPoolMaxSize := by decide
  maxPayloadBytes_pos : 0 < maxPayloadBytes := by decide
  maxRecipientsPerRequest_pos : 0 < maxRecipientsPerRequest := by decide
  connectTimeoutSeconds_pos : 0 < connectTimeoutSeconds := by decide +kernel
  readTimeoutSeconds_pos : 0 < readTimeoutSeconds := by decide +kernel
  attemptDeadlineSeconds_pos : 0 < attemptDeadlineSeconds := by decide +kernel
  retryBaseSeconds_pos : 0 < retryBaseSeconds := by decide +kernel
  retryFactor_ge : 1 ≤ retryFactor := by decide +kernel
  retryCapSeconds_pos : 0 < retryCapSeconds := by decide +kernel
  retryMaxAttempts_pos : 1 ≤ retryMaxAttempts := by decide
  retryJitterRatio_nonneg : 0 ≤ retryJitterRatio := by decide +kernel
  retryJitterRatio_lt : retryJitterRatio < 1 := by decide +kernel
  workerConcurrency_pos : 0 < workerConcurrency := by decide
  workerBatchSize_pos : 0 < workerBatchSize := by decide
  leaseSeconds_pos : 0 < leaseSeconds := by decide +kernel
  maxClaimsPerOrigin_pos : 0 < maxClaimsPerOrigin := by decide
  claimScanMultiplier_pos : 1 ≤ claimScanMultiplier := by decide
  defaultStaleMinutes_pos : 0 < defaultStaleMinutes := by decide
  responseExcerptBytes_pos : 0 < responseExcerptBytes := by decide

namespace Settings

/-- The settings of an empty environment. -/
def default : Settings := {}

/-- How long a claim is held. -/
def lease (s : Settings) : Duration := micros s.leaseSeconds

theorem lease_nonneg (s : Settings) : 0 ≤ s.lease := micros_nonneg s.leaseSeconds_pos.le

/-- What `validate_invariants` complains about, in its order. -/
inductive Complaint where
  | leaseTooShort
  | phasesExceedDeadline
  | batchExceedsConcurrency
  | poolBounds
deriving DecidableEq, Repr

/-- The complaints `validate_invariants` raises with; empty when it returns. -/
def validateInvariants (s : Settings) : List Complaint :=
  (if s.leaseSeconds ≤ s.attemptDeadlineSeconds then [.leaseTooShort] else []) ++
  (if s.connectTimeoutSeconds + s.readTimeoutSeconds > s.attemptDeadlineSeconds
    then [.phasesExceedDeadline] else []) ++
  (if s.workerBatchSize > s.workerConcurrency then [.batchExceedsConcurrency] else []) ++
  (if s.dbPoolMaxSize < s.dbPoolMinSize then [.poolBounds] else [])

/-- The settings `get_settings` hands out. -/
def Validated (s : Settings) : Prop := s.validateInvariants = []

instance (s : Settings) : Decidable s.Validated := by unfold Validated; infer_instance

/-- Every default passes its own check and the startup check. -/
theorem default_validated : default.Validated := by decide +kernel

end Settings

end LeadQueue
