import ChainLens.Rpc.Deserialize
import ChainLens.Startup.Config
import Mathlib.Data.Nat.Find

/-!
# The HTTP client

A call sends its request until a reply is final or the retries are used up. The library behind it
names the URL of a request in the texts of its errors, and the client hands these on.

## Main definitions

* `HttpLibrary`: what the texts of the library's errors say
* `RetryPolicy.delayForAttempt`: the delays between attempts
* `HttpRpcClient.executeOnce`, `HttpRpcClient.call`: an attempt, and a call
* `HttpRpcClient.recordedAttempts`, `HttpRpcClient.recordedCall`: the attempts of a call, and a
  call, with their record
* `Ends`, `Reply.NamesUrl`: the attempt that ends a call, and replies that lead to the URL's text

## Main results

* `recordedCall_erase`: without its record, it is the call of the client
* `call_result`: the result of a call is that of the attempt that ends it
* `executeOnce_errorText_iff`: when the text of an error does not depend on the URL
* `textsAgree_iff`: when no text tells two URLs apart
-/

namespace ChainLens

open Startup (RedactedUrl)

inductive BlockTag where
  | latest
  | safe
  | finalized
  | earliest
  | pending
deriving DecidableEq

namespace BlockTag

def asStr : BlockTag → String
  | .latest => "latest"
  | .safe => "safe"
  | .finalized => "finalized"
  | .earliest => "earliest"
  | .pending => "pending"

/-- The derived debug text. -/
def debug : BlockTag → String
  | .latest => "Latest"
  | .safe => "Safe"
  | .finalized => "Finalized"
  | .earliest => "Earliest"
  | .pending => "Pending"

end BlockTag

namespace RpcError

def display : RpcError → String
  | .http status body => "HTTP " ++ toString status ++ ": " ++ body
  | .jsonRpc code message => "JSON-RPC error " ++ toString code ++ ": " ++ message
  | .timeout => "request timed out"
  | .connection message => "connection error: " ++ message
  | .deserialize message => "deserialization error: " ++ message

def isRetryable : RpcError → Bool
  | .http status _ => status = 429 || 500 ≤ status
  | .timeout => true
  | .connection _ => true
  | .jsonRpc _ _ => false
  | .deserialize _ => false

end RpcError

/-! ## Delays -/

/-- A time span, in nanoseconds. -/
abbrev Duration := ℕ

namespace Duration

def asMillis (d : Duration) : ℕ := d / 1000000

def fromMillis (ms : ℕ) : Duration := 1000000 * ms

end Duration

structure RetryPolicy where
  maxRetries : ℕ
  baseDelay : Duration
  maxDelay : Duration

/-- The delay after the attempt, for a random number up to the bound it is given. -/
def RetryPolicy.delayForAttempt (policy : RetryPolicy) (attempt : ℕ) (genRange : ℕ → ℕ) :
    Duration :=
  let backoffMs := min (policy.baseDelay.asMillis * min (Nat.pow 2 attempt) u128Max) u128Max
  let cappedMs := min backoffMs policy.maxDelay.asMillis
  if cappedMs = 0 then 0 else Duration.fromMillis (genRange cappedMs % (u64Max + 1))

/-! ## Calls -/

/-- The body of a response: its text, if it can be read, and its JSON value, if it has one. -/
structure Body where
  text : Option String
  json : Option Json

/-- What becomes of a request: it fails, or the server responds. -/
inductive Reply where
  | failed (timeout : Bool) (text : String)
  | received (status : ℕ) (body : Body)

/-- The HTTP library, as far as the texts of its errors go. The error of a request names the
request's URL; that of a body that is not what was expected may name it. -/
structure HttpLibrary where
  urlText : String → String
  decodeText : Body → String
  decodeNamesUrl : Bool

namespace HttpLibrary

variable (lib : HttpLibrary)

def forUrl (url : String) : String := " for url (" ++ lib.urlText url ++ ")"

/-- The text of the error of a request. -/
def sendError (url text : String) : String := text ++ lib.forUrl url

/-- The text of the error of a body. -/
def decodeError (url : String) (body : Body) : String :=
  lib.decodeText body ++ if lib.decodeNamesUrl then lib.forUrl url else ""

end HttpLibrary

def isSuccess (status : ℕ) : Bool := 200 ≤ status && status ≤ 299

/-- What a well-formed envelope amounts to. -/
def JsonRpcResponse.outcome {T : Type} : JsonRpcResponse T → Except RpcError T
  | ⟨_, some e⟩ => .error (.jsonRpc e.code e.message)
  | ⟨some value, none⟩ => .ok value
  | ⟨none, none⟩ => .error (.deserialize "JSON-RPC response missing result")

structure HttpRpcClient where
  url : String
  retry : RetryPolicy

namespace HttpRpcClient

variable {T : Type}

def executeOnce (lib : HttpLibrary) (client : HttpRpcClient) (read : Json → Option T) :
    Reply → Except RpcError T
  | .failed true _ => .error .timeout
  | .failed false text => .error (.connection (lib.sendError client.url text))
  | .received status body =>
    if ¬ isSuccess status then .error (.http status (body.text.getD ""))
    else
      match body.json.bind (JsonRpcResponse.deserialize read) with
      | none =>
        .error (.deserialize
          ("failed to parse JSON-RPC response: " ++ lib.decodeError client.url body))
      | some response => response.outcome

/-- The attempts of a call that are left, with the delays slept before them. -/
def attempts (policy : RetryPolicy) (genRange : ℕ → ℕ → ℕ) (outcome : ℕ → Except RpcError T) :
    (left attempt : ℕ) → Option RpcError → Except RpcError T × List Duration
  | 0, _, lastError =>
    (.error (lastError.getD (.connection "retries exhausted with no error")), [])
  | left + 1, attempt, _ =>
    let slept :=
      if 0 < attempt then [policy.delayForAttempt (attempt - 1) (genRange attempt)] else []
    match outcome attempt with
    | .ok value => (.ok value, slept)
    | .error e =>
      if e.isRetryable ∧ attempt < policy.maxRetries then
        let (result, delays) := attempts policy genRange outcome left (attempt + 1) (some e)
        (result, slept ++ delays)
      else (.error e, slept)

/-- A call, whose attempts the server answers one by one. -/
def call (lib : HttpLibrary) (client : HttpRpcClient) (genRange : ℕ → ℕ → ℕ)
    (read : Json → Option T) (server : ℕ → Reply) : Except RpcError T × List Duration :=
  attempts client.retry genRange (fun attempt => executeOnce lib client read (server attempt))
    (client.retry.maxRetries + 1) 0 none

end HttpRpcClient

/-! ## The record of a call -/

inductive CallEvent where
  | slept (delay : Duration)
  | attempted (attempt : ℕ)

/-- Where a call returns: in an attempt, or after the loop, with the error it remembers. -/
inductive CallEnd (T : Type) where
  | returned (result : Except RpcError T)
  | exhausted (lastError : Option RpcError)

def CallEnd.result {T : Type} : CallEnd T → Except RpcError T
  | .returned result => result
  | .exhausted lastError => .error (lastError.getD (.connection "retries exhausted with no error"))

def CallEvent.delay : CallEvent → Option Duration
  | .slept delay => some delay
  | .attempted _ => none

/-- What a call does in one attempt: it sleeps, unless the attempt is the first one. -/
def RetryPolicy.attemptEvents (policy : RetryPolicy) (genRange : ℕ → ℕ → ℕ) (attempt : ℕ) :
    List CallEvent :=
  (if 0 < attempt then [.slept (policy.delayForAttempt (attempt - 1) (genRange attempt))]
    else []) ++ [.attempted attempt]

theorem RetryPolicy.delays_attemptEvents (policy : RetryPolicy) (genRange : ℕ → ℕ → ℕ)
    (attempt : ℕ) :
    (policy.attemptEvents genRange attempt).filterMap CallEvent.delay =
      if 0 < attempt then [policy.delayForAttempt (attempt - 1) (genRange attempt)] else [] := by
  unfold attemptEvents
  split <;> rfl

section Record

variable {T : Type} (policy : RetryPolicy) (genRange : ℕ → ℕ → ℕ) (outcome : ℕ → Except RpcError T)

/-- The attempts of a call that are left, with everything it does in them. -/
def HttpRpcClient.recordedAttempts :
    (left attempt : ℕ) → Option RpcError → CallEnd T × List CallEvent
  | 0, _, lastError => (.exhausted lastError, [])
  | left + 1, attempt, _ =>
    match outcome attempt with
    | .ok value => (.returned (.ok value), policy.attemptEvents genRange attempt)
    | .error e =>
      if e.isRetryable ∧ attempt < policy.maxRetries then
        let (callEnd, events) := recordedAttempts left (attempt + 1) (some e)
        (callEnd, policy.attemptEvents genRange attempt ++ events)
      else (.returned (.error e), policy.attemptEvents genRange attempt)

variable {policy genRange outcome}

open HttpRpcClient

/-- The record of the attempts of the client: their result and their delays are the same. -/
theorem recordedAttempts_erase (left attempt : ℕ) (lastError : Option RpcError) :
    ((recordedAttempts policy genRange outcome left attempt lastError).1.result,
      (recordedAttempts policy genRange outcome left attempt lastError).2.filterMap
        CallEvent.delay) = attempts policy genRange outcome left attempt lastError := by
  induction left generalizing attempt lastError with
  | zero => rfl
  | succ left ih =>
    unfold recordedAttempts attempts
    cases outcome attempt with
    | ok value =>
      rw [← policy.delays_attemptEvents]
      rfl
    | error e =>
      dsimp only
      by_cases hagain : e.isRetryable ∧ attempt < policy.maxRetries
      · rw [if_pos hagain, if_pos hagain, ← ih (attempt + 1) (some e),
          ← policy.delays_attemptEvents]
        simp
      · rw [if_neg hagain, if_neg hagain, ← policy.delays_attemptEvents]
        rfl

/-- A call, with everything it does. -/
def HttpRpcClient.recordedCall (lib : HttpLibrary) (client : HttpRpcClient)
    (genRange : ℕ → ℕ → ℕ) (read : Json → Option T) (server : ℕ → Reply) :
    CallEnd T × List CallEvent :=
  recordedAttempts client.retry genRange
    (fun attempt => executeOnce lib client read (server attempt)) (client.retry.maxRetries + 1) 0
    none

/-- **The record** of a call: its result and its delays are those of the call. -/
theorem recordedCall_erase (lib : HttpLibrary) (client : HttpRpcClient) (genRange : ℕ → ℕ → ℕ)
    (read : Json → Option T) (server : ℕ → Reply) :
    ((recordedCall lib client genRange read server).1.result,
      (recordedCall lib client genRange read server).2.filterMap CallEvent.delay) =
      call lib client genRange read server :=
  recordedAttempts_erase _ _ _

/-- The attempts from one on, up to the one that ends the call. -/
theorem recordedAttempts_eq {k : ℕ} (hk : k ≤ policy.maxRetries)
    (hfinal : ∀ e, outcome k = .error e → e.isRetryable = false ∨ k = policy.maxRetries)
    (n attempt left : ℕ) (hattempt : attempt + n = k) (hleft : n < left)
    (hretried : ∀ j, attempt ≤ j → j < k → ∃ e, outcome j = .error e ∧ e.isRetryable)
    (lastError : Option RpcError) :
    recordedAttempts policy genRange outcome left attempt lastError =
      (.returned (outcome k),
        (List.range' attempt (n + 1)).flatMap (policy.attemptEvents genRange)) := by
  induction n generalizing attempt left lastError with
  | zero =>
    obtain rfl : attempt = k := hattempt
    cases left with
    | zero => exact absurd hleft (Nat.lt_irrefl 0)
    | succ left =>
      unfold recordedAttempts
      cases houtcome : outcome attempt with
      | ok value => simp
      | error e =>
        -- An error that ends the call, or the last attempt.
        have hstop : ¬ (e.isRetryable ∧ attempt < policy.maxRetries) := by
          rcases hfinal e houtcome with hfinal | hlast
          · simp [hfinal]
          · simp [hlast]
        simp [hstop]
  | succ n ih =>
    cases left with
    | zero => omega
    | succ left =>
      -- An attempt before the last one is repeated after its delay.
      obtain ⟨e, houtcome, hretryable⟩ := hretried attempt (Nat.le_refl _) (by omega)
      have hagain : e.isRetryable ∧ attempt < policy.maxRetries := ⟨hretryable, by omega⟩
      unfold recordedAttempts
      simp only [houtcome, if_pos hagain]
      have hrange : List.range' attempt (n + 1 + 1) =
          attempt :: List.range' (attempt + 1) (n + 1) := List.range'_succ
      rw [ih (attempt + 1) left (by omega) (by omega) (fun j hj => hretried j (by omega)), hrange,
        List.flatMap_cons]

/-- An attempt that ends the retries: the first one that is not to be repeated, or the last one
allowed. -/
theorem exists_final (again : ℕ → Prop) (maxRetries : ℕ) :
    ∃ k ≤ maxRetries, (∀ j < k, again j) ∧ (k = maxRetries ∨ ¬ again k) := by
  classical
  have hex : ∃ k, k = maxRetries ∨ ¬ again k := ⟨maxRetries, Or.inl rfl⟩
  refine ⟨Nat.find hex, Nat.find_min' hex (Or.inl rfl), fun j hj => ?_, Nat.find_spec hex⟩
  have hnot := Nat.find_min hex hj
  rw [not_or, not_not] at hnot
  exact hnot.2

end Record

/-! ## What ends a call -/

section Results

open HttpRpcClient

variable {T : Type} {lib : HttpLibrary} {client : HttpRpcClient} {read : Json → Option T}
  {genRange : ℕ → ℕ → ℕ} {server : ℕ → Reply}

namespace Reply

/-- After the reply the client asks again, if it may. -/
def Retried : Reply → Prop
  | .failed _ _ => True
  | .received status _ => status = 429 ∨ 500 ≤ status

/-- The reply leads to an error whose text names the URL. -/
def NamesUrl (lib : HttpLibrary) (read : Json → Option T) : Reply → Prop
  | .failed timeout _ => timeout = false
  | .received status body => lib.decodeNamesUrl = true ∧ isSuccess status = true ∧
      body.json.bind (JsonRpcResponse.deserialize read) = none

end Reply

/-- The attempt that ends a call: the first one that is not retried, or the last one allowed. -/
structure Ends (maxRetries : ℕ) (server : ℕ → Reply) (k : ℕ) : Prop where
  le : k ≤ maxRetries
  retried : ∀ j < k, (server j).Retried
  final : k = maxRetries ∨ ¬ (server k).Retried

theorem exists_ends (maxRetries : ℕ) (server : ℕ → Reply) : ∃ k, Ends maxRetries server k := by
  obtain ⟨k, hle, hretried, hfinal⟩ := exists_final (fun j => (server j).Retried) maxRetries
  exact ⟨k, hle, hretried, hfinal⟩

theorem Ends.unique {maxRetries k k' : ℕ} (h : Ends maxRetries server k)
    (h' : Ends maxRetries server k') : k = k' := by
  rcases Nat.lt_trichotomy k k' with hlt | heq | hlt
  · have hle := h'.le
    exact absurd (h'.retried k hlt) (h.final.resolve_left (by omega))
  · exact heq
  · have hle := h.le
    exact absurd (h.retried k' hlt) (h'.final.resolve_left (by omega))

/-- The errors of a response that was understood are final. -/
theorem JsonRpcResponse.outcome_not_retryable {response : JsonRpcResponse T} {e : RpcError}
    (h : response.outcome = .error e) : e.isRetryable = false := by
  obtain ⟨_ | value, _ | error⟩ := response <;> cases h <;> rfl

/-- A reply is retried exactly when its error is. -/
theorem executeOnce_retryable_iff (reply : Reply) :
    (∃ e, executeOnce lib client read reply = .error e ∧ e.isRetryable) ↔ reply.Retried := by
  cases reply with
  | failed timeout text => cases timeout <;> simp [executeOnce, Reply.Retried, RpcError.isRetryable]
  | received status body =>
    by_cases hsuccess : isSuccess status = true
    · have hstatus : ¬ (status = 429 ∨ 500 ≤ status) := by
        simp [isSuccess] at hsuccess
        omega
      refine iff_of_false ?_ hstatus
      rintro ⟨e, herror, hretryable⟩
      simp only [executeOnce, hsuccess, not_true_eq_false, if_false] at herror
      split at herror
      · cases herror
        cases hretryable
      · rw [JsonRpcResponse.outcome_not_retryable herror] at hretryable
        cases hretryable
    · simp [executeOnce, hsuccess, Reply.Retried, RpcError.isRetryable]

/-- The attempts from one on, up to the one that ends the call. -/
theorem attempts_result {policy : RetryPolicy} {outcome : ℕ → Except RpcError T} {k : ℕ}
    (hk : k ≤ policy.maxRetries)
    (hfinal : ∀ e, outcome k = .error e → e.isRetryable = false ∨ k = policy.maxRetries)
    (n attempt left : ℕ) (hattempt : attempt + n = k) (hleft : n < left)
    (hretried : ∀ j, attempt ≤ j → j < k → ∃ e, outcome j = .error e ∧ e.isRetryable)
    (lastError : Option RpcError) :
    (attempts policy genRange outcome left attempt lastError).1 = outcome k := by
  rw [← recordedAttempts_erase, recordedAttempts_eq hk hfinal n attempt left hattempt hleft
    hretried lastError]
  rfl

/-- **The result of a call** is that of the attempt that ends it. -/
theorem call_result {k : ℕ} (h : Ends client.retry.maxRetries server k) :
    (call lib client genRange read server).1 = executeOnce lib client read (server k) := by
  have hle := h.le
  refine attempts_result hle (fun e herror => ?_) k 0 _ (Nat.zero_add k) (by omega)
    (fun j _ hj => (executeOnce_retryable_iff _).mpr (h.retried j hj)) none
  refine h.final.symm.imp_left fun hfinal => ?_
  by_contra hretryable
  exact hfinal ((executeOnce_retryable_iff _).mp ⟨e, herror, by simpa using hretryable⟩)

/-! ## What the errors say -/

/-- The text of an error, where there is one. -/
def errorText : Except RpcError T → Option String
  | .ok _ => none
  | .error e => some e.display

theorem errorText_connection_inj {message message' : String} :
    errorText (.error (.connection message) : Except RpcError T) =
      errorText (.error (.connection message') : Except RpcError T) ↔ message = message' := by
  show some ("connection error: " ++ message) = some ("connection error: " ++ message') ↔ _
  rw [Option.some_inj, String.append_right_inj]

theorem errorText_deserialize_inj {message message' : String} :
    errorText (.error (.deserialize message) : Except RpcError T) =
      errorText (.error (.deserialize message') : Except RpcError T) ↔ message = message' := by
  show some ("deserialization error: " ++ message) =
    some ("deserialization error: " ++ message') ↔ _
  rw [Option.some_inj, String.append_right_inj]

theorem forUrl_inj {url url' : String} :
    lib.forUrl url = lib.forUrl url' ↔ lib.urlText url = lib.urlText url' := by
  simp [HttpLibrary.forUrl]

theorem decodeError_inj {url url' : String} {body : Body} :
    lib.decodeError url body = lib.decodeError url' body ↔
      lib.urlText url = lib.urlText url' ∨ ¬ lib.decodeNamesUrl = true := by
  rw [HttpLibrary.decodeError, HttpLibrary.decodeError, String.append_right_inj]
  split
  next hnames => rw [forUrl_inj, or_iff_left (not_not.mpr hnames)]
  next hnames => exact iff_of_true rfl (Or.inr hnames)

/-- Two clients of different URLs tell the same of a reply exactly when it does not lead to the
URL. -/
theorem executeOnce_errorText_iff {retry retry' : RetryPolicy} {url url' : String}
    (reply : Reply) :
    errorText (executeOnce lib ⟨url, retry⟩ read reply) =
        errorText (executeOnce lib ⟨url', retry'⟩ read reply) ↔
      lib.urlText url = lib.urlText url' ∨ ¬ reply.NamesUrl lib read := by
  cases reply with
  | failed timeout text =>
    cases timeout with
    | true => simp [executeOnce, Reply.NamesUrl]
    | false =>
      rw [executeOnce, executeOnce, errorText_connection_inj, HttpLibrary.sendError,
        HttpLibrary.sendError, String.append_right_inj, forUrl_inj]
      exact (or_iff_left fun hnames => hnames rfl).symm
  | received status body =>
    by_cases hsuccess : isSuccess status = true
    · cases hread : body.json.bind (JsonRpcResponse.deserialize read) with
      | some response => simp [executeOnce, hsuccess, hread, Reply.NamesUrl]
      | none =>
        have hnames : (Reply.received status body).NamesUrl lib read ↔
            lib.decodeNamesUrl = true := by simp [Reply.NamesUrl, hsuccess, hread]
        have hexecute : ∀ url retry, executeOnce lib ⟨url, retry⟩ read (.received status body) =
            .error (.deserialize
              ("failed to parse JSON-RPC response: " ++ lib.decodeError url body)) := by
          intro url retry
          simp only [executeOnce, hsuccess, hread, not_true_eq_false, if_false]
        rw [hexecute, hexecute, hnames, errorText_deserialize_inj, String.append_right_inj,
          decodeError_inj]
    · simp [executeOnce, hsuccess, Reply.NamesUrl]

end Results

/-- The configuration and the errors of a call show the same for either URL of the node. -/
def TextsAgree {T : Type} (lib : HttpLibrary) (config : Startup.Config) (retry : RetryPolicy)
    (genRange : ℕ → ℕ → ℕ) (read : Json → Option T) (server : ℕ → Reply) (url url' : RedactedUrl) :
    Prop :=
  Startup.Config.renderings { config with rpcUrl := url } =
      Startup.Config.renderings { config with rpcUrl := url' } ∧
    errorText (HttpRpcClient.call lib ⟨url.expose.asStr, retry⟩ genRange read server).1 =
      errorText (HttpRpcClient.call lib ⟨url'.expose.asStr, retry⟩ genRange read server).1

/-- **When no text tells two URLs of one target apart**: the library's texts of the URLs are the
same, or the reply that ends the call does not lead to them. -/
theorem textsAgree_iff {T : Type} (lib : HttpLibrary) (config : Startup.Config)
    (retry : RetryPolicy) (genRange : ℕ → ℕ → ℕ) (read : Json → Option T) (server : ℕ → Reply)
    {url url' : RedactedUrl} (htarget : url.expose.SameTarget url'.expose)
    (helided : url.elided = true) (helided' : url'.elided = true) :
    TextsAgree lib config retry genRange read server url url' ↔
      lib.urlText url.expose.asStr = lib.urlText url'.expose.asStr ∨
        ∀ k, Ends retry.maxRetries server k → ¬ (server k).NamesUrl lib read := by
  have hrenderings := config.renderings_congr htarget (helided.trans helided'.symm)
  obtain ⟨k, hk⟩ := exists_ends retry.maxRetries server
  have hunique : (∀ k, Ends retry.maxRetries server k → ¬ (server k).NamesUrl lib read) ↔
      ¬ (server k).NamesUrl lib read :=
    ⟨fun h => h k hk, fun h k' hk' => hk.unique hk' ▸ h⟩
  rw [hunique, TextsAgree, call_result hk, call_result hk, executeOnce_errorText_iff]
  exact and_iff_right hrenderings

/-- A node behind a key in the path of its URL. -/
def keyedUrl (key : String) : RedactedUrl :=
  ⟨{ scheme := "https", host := some "eth.example", path := "/v2/" ++ key, port := none,
     username := "", password := none, query := none, fragment := none }⟩

def keyedConfig : Startup.Config :=
  { rpcUrl := keyedUrl "key", databaseUrl := keyedUrl "key" }

/-- A library that prints every URL in full, and no URL with the error of a body. -/
def plainLibrary : HttpLibrary where
  urlText url := url
  decodeText _ := "error decoding response body"
  decodeNamesUrl := false

theorem keyedUrl_asStr_inj {key key' : String} :
    (keyedUrl key).expose.asStr = (keyedUrl key').expose.asStr ↔ key = key' := by
  simp [keyedUrl, Startup.Url.asStr, Startup.Url.userInfo]

/-- Two keys, and a server that does not respond in time. -/
theorem keyedUrl_textsAgree_iff :
    TextsAgree plainLibrary keyedConfig ⟨3, 200000000, 8000000000⟩ (fun _ _ => 0) HexQuantity.u64
        (fun _ => .failed true "error sending request") (keyedUrl "first") (keyedUrl "second") ↔
      (keyedUrl "first").expose.asStr = (keyedUrl "second").expose.asStr ∨
        ∀ k, Ends 3 (fun _ => .failed true "error sending request") k →
          ¬ (Reply.failed true "error sending request").NamesUrl plainLibrary HexQuantity.u64 :=
  textsAgree_iff plainLibrary keyedConfig ⟨3, 200000000, 8000000000⟩ _ _ _ ⟨rfl, rfl, rfl⟩
    (by decide) (by decide)

/-- A refused connection tells two keys apart. -/
theorem keyedUrl_told_apart :
    ¬ ∀ url url' : RedactedUrl, url.expose.SameTarget url'.expose → url.elided = true →
      url'.elided = true →
        TextsAgree plainLibrary keyedConfig ⟨3, 200000000, 8000000000⟩ (fun _ _ => 0)
          HexQuantity.u64 (fun _ => .failed false "error sending request") url url' := by
  intro hagree
  obtain ⟨-, herror⟩ := hagree (keyedUrl "first") (keyedUrl "second") ⟨rfl, rfl, rfl⟩
    (by decide) (by decide)
  obtain ⟨k, hk⟩ := exists_ends 3 fun _ => .failed false "error sending request"
  rw [call_result hk, call_result hk, executeOnce_errorText_iff] at herror
  have htexts := herror.resolve_right (not_not.mpr rfl)
  have hkeys := keyedUrl_asStr_inj.mp htexts
  exact absurd hkeys (by decide)

end ChainLens
