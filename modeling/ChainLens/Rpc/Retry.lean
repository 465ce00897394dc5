import ChainLens.Rpc.Http

/-!
# The retries of a call

A call repeats its attempt after a delay that doubles each time, up to a greatest one, as long as
the errors are retryable and the policy allows it.

## Main definitions

* `RetriesTo`: a call retries up to an attempt, and returns there

## Main results

* `delayForAttempt_le`: no delay is longer than the doubled base delay, or than the greatest one
* `call_retries`: every call retries up to the attempt that ends it
-/

namespace ChainLens

/-! ## Delays -/

/-- The longest time span. -/
def Duration.max : Duration := 1000000000 * u64Max + 999999999

theorem Duration.fromMillis_asMillis_le (d : Duration) : fromMillis d.asMillis ≤ d :=
  Nat.mul_div_le d 1000000

theorem Duration.asMillis_le_u128Max {d : Duration} (h : d ≤ max) : d.asMillis ≤ u128Max := by
  have hmax : Duration.max ≤ u128Max := by decide
  exact (Nat.div_le_self d _).trans (h.trans hmax)

namespace RetryPolicy

variable (policy : RetryPolicy) (attempt : ℕ) (genRange : ℕ → ℕ)

/-- The greatest delay after an attempt, in milliseconds. -/
def cappedMs : ℕ :=
  min (min (policy.baseDelay.asMillis * min (2 ^ attempt) u128Max) u128Max)
    policy.maxDelay.asMillis

theorem delayForAttempt_eq : policy.delayForAttempt attempt genRange =
    if policy.cappedMs attempt = 0 then 0
    else Duration.fromMillis (genRange (policy.cappedMs attempt) % (u64Max + 1)) := rfl

theorem cappedMs_le : policy.cappedMs attempt ≤ policy.baseDelay.asMillis * 2 ^ attempt :=
  (min_le_left _ _).trans ((min_le_left _ _).trans (Nat.mul_le_mul_left _ (min_le_left _ _)))

theorem fromMillis_cappedMs_le : Duration.fromMillis (policy.cappedMs attempt) ≤
    min (policy.baseDelay * 2 ^ attempt) policy.maxDelay := by
  refine le_min ?_ ?_
  · calc Duration.fromMillis (policy.cappedMs attempt)
        ≤ 1000000 * (policy.baseDelay.asMillis * 2 ^ attempt) :=
          Nat.mul_le_mul_left _ (policy.cappedMs_le attempt)
      _ = Duration.fromMillis policy.baseDelay.asMillis * 2 ^ attempt :=
          (Nat.mul_assoc _ _ _).symm
      _ ≤ policy.baseDelay * 2 ^ attempt :=
          Nat.mul_le_mul_right _ policy.baseDelay.fromMillis_asMillis_le
  · exact (Nat.mul_le_mul_left _ (min_le_right _ _)).trans policy.maxDelay.fromMillis_asMillis_le

variable {genRange}

/-- **A delay** is no longer than the base delay doubled as often, nor than the greatest one,
whatever is saturated or cut off on the way. -/
theorem delayForAttempt_le (hgen : ∀ n, genRange n ≤ n) :
    policy.delayForAttempt attempt genRange ≤
      min (policy.baseDelay * 2 ^ attempt) policy.maxDelay := by
  rw [delayForAttempt_eq]
  split
  · exact Nat.zero_le _
  · exact (Nat.mul_le_mul_left _ ((Nat.mod_le _ _).trans (hgen _))).trans
      (policy.fromMillis_cappedMs_le attempt)

/-- The milliseconds of a delay are a `u64`, so that it is a time span. -/
theorem delayForAttempt_le_max : policy.delayForAttempt attempt genRange ≤ Duration.max := by
  rw [delayForAttempt_eq]
  split
  · exact Nat.zero_le _
  · have hle : genRange (policy.cappedMs attempt) % (u64Max + 1) ≤ u64Max :=
      Nat.le_of_lt_succ (Nat.mod_lt _ (Nat.succ_pos _))
    exact (Nat.mul_le_mul_left _ hle).trans (by decide)

/-- The delays of the first attempts: there is one before each of them but the first. -/
theorem delays_range (genRange : ℕ → ℕ → ℕ) (k : ℕ) :
    ((List.range (k + 1)).flatMap (policy.attemptEvents genRange)).filterMap CallEvent.delay =
      (List.range k).map fun i => policy.delayForAttempt i (genRange (i + 1)) := by
  induction k with
  | zero => rfl
  | succ k ih =>
    have hlast := policy.delays_attemptEvents genRange (k + 1)
    rw [if_pos (Nat.succ_pos k), Nat.add_sub_cancel] at hlast
    rw [List.range_succ, List.flatMap_append, List.filterMap_append, ih, List.flatMap_singleton,
      hlast, List.range_succ, List.map_append, List.map_singleton]

end RetryPolicy

/-! ## Calls -/

section Calls

open HttpRpcClient

variable {T : Type}

/-- A call retries up to an attempt, and returns there. -/
structure RetriesTo (policy : RetryPolicy) (genRange : ℕ → ℕ → ℕ) (outcome : ℕ → Except RpcError T)
    (k : ℕ) (run : CallEnd T × List CallEvent) : Prop where
  le : k ≤ policy.maxRetries
  retried : ∀ j < k, ∃ e, outcome j = .error e ∧ e.isRetryable
  final : k = policy.maxRetries ∨ ∀ e, outcome k = .error e → e.isRetryable = false
  returned : run.1 = .returned (outcome k)
  events : run.2 = (List.range (k + 1)).flatMap (policy.attemptEvents genRange)

/-- The attempts of a policy retry up to the one that ends them, whatever they give. -/
theorem exists_retriesTo (policy : RetryPolicy) (genRange : ℕ → ℕ → ℕ)
    (outcome : ℕ → Except RpcError T) :
    ∃ k, RetriesTo policy genRange outcome k (recordedAttempts policy genRange outcome
      (policy.maxRetries + 1) 0 none) := by
  obtain ⟨k, hk, hretried, hlast⟩ :=
    exists_final (fun j => ∃ e, outcome j = .error e ∧ e.isRetryable) policy.maxRetries
  have hfinal : k = policy.maxRetries ∨ ∀ e, outcome k = .error e → e.isRetryable = false := by
    refine hlast.imp_right fun hnot e he => Bool.eq_false_iff.mpr fun hretryable => ?_
    exact hnot ⟨e, he, hretryable⟩
  have hstop : ∀ e, outcome k = .error e → e.isRetryable = false ∨ k = policy.maxRetries := by
    intro e he
    exact hfinal.symm.imp_left fun h => h e he
  have hrun := @recordedAttempts_eq _ policy genRange outcome k hk hstop k 0 (policy.maxRetries + 1)
    (Nat.zero_add k) (by omega) (fun j _ hj => hretried j hj) none
  rw [← List.range_eq_range'] at hrun
  exact ⟨k, hk, hretried, hfinal, congrArg Prod.fst hrun, congrArg Prod.snd hrun⟩

/-- What attempts that retry up to one come to: its outcome, and a delay before each but the
first. -/
theorem RetriesTo.erase {policy : RetryPolicy} {genRange : ℕ → ℕ → ℕ}
    {outcome : ℕ → Except RpcError T} {k : ℕ} {run : CallEnd T × List CallEvent}
    (h : RetriesTo policy genRange outcome k run) :
    (run.1.result, run.2.filterMap CallEvent.delay) =
      (outcome k, (List.range k).map fun i => policy.delayForAttempt i (genRange (i + 1))) := by
  rw [h.returned, h.events, policy.delays_range]
  rfl

section Every

variable (lib : HttpLibrary) (client : HttpRpcClient) (read : Json → Option T)
  (server : ℕ → Reply)

/-- **Every call**, whatever the server answers to its attempts, retries up to the attempt that
ends it, and returns what that one gives. It makes no more attempts than the policy allows, never
returns after the loop, and no delay between them is longer than the policy allows, or than a time
span can be. -/
theorem call_retries (genRange : ℕ → ℕ → ℕ) (hgen : ∀ attempt n, genRange attempt n ≤ n) :
    ∃ k, RetriesTo client.retry genRange
        (fun attempt => executeOnce lib client read (server attempt)) k
        (recordedCall lib client genRange read server) ∧
      call lib client genRange read server =
        (executeOnce lib client read (server k),
          (List.range k).map fun i => client.retry.delayForAttempt i (genRange (i + 1))) ∧
      ∀ i, client.retry.delayForAttempt i (genRange (i + 1)) ≤
          min (client.retry.baseDelay * 2 ^ i) client.retry.maxDelay ∧
        client.retry.delayForAttempt i (genRange (i + 1)) ≤ Duration.max ∧
        (client.retry.baseDelay ≤ Duration.max → client.retry.baseDelay.asMillis ≤ u128Max) ∧
        (client.retry.maxDelay ≤ Duration.max → client.retry.maxDelay.asMillis ≤ u128Max) := by
  obtain ⟨k, hretries⟩ := exists_retriesTo client.retry genRange
    (fun attempt => executeOnce lib client read (server attempt))
  refine ⟨k, hretries, ?_, fun i => ⟨?_, ?_, ?_, ?_⟩⟩
  · rw [← recordedCall_erase]
    exact hretries.erase
  · exact client.retry.delayForAttempt_le i (hgen (i + 1))
  · exact client.retry.delayForAttempt_le_max i
  · exact Duration.asMillis_le_u128Max
  · exact Duration.asMillis_le_u128Max

end Every

/-- A client that asks a server for a number, and waits two tenths of a second first. -/
def patientClient : HttpRpcClient := ⟨"http://localhost:8545", ⟨3, 200000000, 8000000000⟩⟩

/-- A server that is down, then out of order, and responds to the third attempt. -/
def recoveringServer : ℕ → Reply
  | 0 => .failed true "error sending request"
  | 1 => .received 503 ⟨some "unavailable", none⟩
  | _ => .received 200 ⟨none, some (.object [("result", .string "0x7")])⟩

/-- The client asks it up to three times. -/
theorem call_retries_recovering :
    ∃ k, RetriesTo patientClient.retry (fun _ n => n)
        (fun attempt => executeOnce plainLibrary patientClient HexQuantity.u64
          (recoveringServer attempt)) k
        (recordedCall plainLibrary patientClient (fun _ n => n) HexQuantity.u64
          recoveringServer) ∧
      call plainLibrary patientClient (fun _ n => n) HexQuantity.u64 recoveringServer =
        (executeOnce plainLibrary patientClient HexQuantity.u64 (recoveringServer k),
          (List.range k).map fun i => patientClient.retry.delayForAttempt i fun n => n) ∧
      ∀ i, patientClient.retry.delayForAttempt i (fun n => n) ≤
          min (patientClient.retry.baseDelay * 2 ^ i) patientClient.retry.maxDelay ∧
        patientClient.retry.delayForAttempt i (fun n => n) ≤ Duration.max ∧
        (patientClient.retry.baseDelay ≤ Duration.max →
          patientClient.retry.baseDelay.asMillis ≤ u128Max) ∧
        (patientClient.retry.maxDelay ≤ Duration.max →
          patientClient.retry.maxDelay.asMillis ≤ u128Max) :=
  call_retries plainLibrary patientClient HexQuantity.u64 recoveringServer (fun _ n => n)
    fun _ n => Nat.le_refl n

end Calls

end ChainLens
