import ChainLens.Domain.Types
import ChainLens.Intelligence.Cache

/-!
# The cache of responses

Responses are kept in a cache of the same make as that of the intelligence layer, with one time to
live for all of them. Both make room for an entry before they know whether its key is new.

## Main definitions

* `ApiCache`: the cache with its operations
* `ApiCache.Run`: the caches that calls lead to

## Main results

* `evicts_minimally_iff`: when a write to a cache keeps its bound and all entries it can keep
-/

namespace ChainLens

open Expiring

abbrev StatusCode := UInt16

/-- An entry's value is a body with its status. -/
structure ApiCache where
  entries : Entries String (Bytes × StatusCode)
  maxEntries : ℕ
  defaultTtl : ℕ

namespace ApiCache

def new (maxEntries defaultTtl : ℕ) : ApiCache := ⟨∅, maxEntries, defaultTtl⟩

def get (now : ℕ) (key : String) (cache : ApiCache) : Option (Bytes × StatusCode) :=
  Expiring.get now cache.entries key

def Set (now : ℕ) (key : String) (body : Bytes) (status : StatusCode) (cache cache' : ApiCache) :
    Prop :=
  ∃ entries, Write cache.maxEntries now key (body, status) cache.defaultTtl cache.entries entries ∧
    cache' = { cache with entries }

def invalidatePrefix (start : String) (cache : ApiCache) : ApiCache :=
  { cache with entries := retain (fun key _ => ¬ start.toList <+: key.toList) cache.entries }

def clear (cache : ApiCache) : ApiCache := { cache with entries := ∅ }

inductive Call where
  | set (key : String) (body : Bytes) (status : StatusCode)
  | invalidatePrefix (start : String)
  | clear
  | get (key : String)

/-- What a call at a time makes of a cache. -/
inductive Step (now : ℕ) (cache : ApiCache) : Call → ApiCache → Prop where
  | set {cache' : ApiCache} {key : String} {body : Bytes} {status : StatusCode}
      (h : Set now key body status cache cache') : Step now cache (.set key body status) cache'
  | invalidatePrefix (start : String) :
      Step now cache (.invalidatePrefix start) (cache.invalidatePrefix start)
  | clear : Step now cache .clear cache.clear
  | get (key : String) : Step now cache (.get key) cache

/-- The caches that calls lead to from a new one, with the calls and their times, last call
first. -/
inductive Run (maxEntries defaultTtl : ℕ) : List (ℕ × Call) → ApiCache → Prop where
  | new : Run maxEntries defaultTtl [] (new maxEntries defaultTtl)
  | call {history : List (ℕ × Call)} {cache cache' : ApiCache} {now : ℕ} {call : Call}
      (h : Run maxEntries defaultTtl history cache)
      (hclock : ∀ call ∈ history.head?, call.1 ≤ now) (hstep : Step now cache call cache') :
      Run maxEntries defaultTtl ((now, call) :: history) cache'

end ApiCache

namespace ApiCache

variable {maxEntries defaultTtl : ℕ} {history : List (ℕ × Call)} {cache : ApiCache}

theorem Run.config (h : Run maxEntries defaultTtl history cache) :
    cache.maxEntries = maxEntries ∧ cache.defaultTtl = defaultTtl := by
  induction h with
  | new => exact ⟨rfl, rfl⟩
  | call _ _ hstep ih =>
    cases hstep with
    | set hset =>
      obtain ⟨entries, -, rfl⟩ := hset
      exact ih
    | invalidatePrefix | clear | get => exact ih

theorem Run.length_le (h : Run maxEntries defaultTtl history cache) :
    cache.entries.keys.length ≤ max maxEntries 1 := by
  induction h with
  | new => exact Nat.zero_le _
  | call h _ hstep ih =>
    rw [← h.config.1] at ih ⊢
    cases hstep with
    | set hset =>
      obtain ⟨entries, hwrite, rfl⟩ := hset
      exact length_write_le ih hwrite
    | invalidatePrefix => exact (length_retain_le _ _).trans ih
    | clear => exact Nat.zero_le _
    | get => exact ih

end ApiCache

/-! ## Evictions -/

section Evictions

variable {T : Type} {maxEntries defaultTtl : ℕ}

/-- When a write to a reached cache is minimal. -/
theorem IntelligenceCache.Run.setWithTtl_minimal_iff
    {history : List (ℕ × IntelligenceCache.Call T)} {cache : IntelligenceCache T}
    (h : IntelligenceCache.Run maxEntries defaultTtl history cache) (now : ℕ) (key : String)
    (value : T) (ttl : ℕ) :
    (∀ cache', IntelligenceCache.SetWithTtl now key value ttl cache cache' →
        Minimal maxEntries key cache.entries cache'.entries) ↔
      Admits maxEntries cache.entries key := by
  obtain ⟨hmax, -⟩ := h.config
  subst hmax
  rw [← @minimal_iff _ _ _ _ _ now key value ttl h.length_le]
  constructor
  · intro hminimal entries' hwrite
    exact hminimal _ ⟨entries', hwrite, rfl⟩
  · rintro hminimal _ ⟨entries', hwrite, rfl⟩
    exact hminimal entries' hwrite

theorem ApiCache.Run.set_minimal_iff {history : List (ℕ × ApiCache.Call)} {cache : ApiCache}
    (h : ApiCache.Run maxEntries defaultTtl history cache) (now : ℕ) (key : String) (body : Bytes)
    (status : StatusCode) :
    (∀ cache', ApiCache.Set now key body status cache cache' →
        Minimal maxEntries key cache.entries cache'.entries) ↔
      Admits maxEntries cache.entries key := by
  obtain ⟨hmax, -⟩ := h.config
  subst hmax
  rw [← @minimal_iff _ _ _ _ _ now key (body, status) cache.defaultTtl h.length_le]
  constructor
  · intro hminimal entries' hwrite
    exact hminimal _ ⟨entries', hwrite, rfl⟩
  · rintro hminimal _ ⟨entries', hwrite, rfl⟩
    exact hminimal entries' hwrite

/-- **Which writes to a reached cache are minimal**: with and without a time to live, and those of
responses. -/
theorem evicts_minimally_iff :
    (∀ (history : List (ℕ × IntelligenceCache.Call T)) (cache : IntelligenceCache T),
      IntelligenceCache.Run maxEntries defaultTtl history cache →
      ∀ (now : ℕ) (key : String) (value : T),
        ((∀ cache', IntelligenceCache.Set now key value cache cache' →
            Minimal maxEntries key cache.entries cache'.entries) ↔
          Admits maxEntries cache.entries key) ∧
        ∀ ttl, (∀ cache', IntelligenceCache.SetWithTtl now key value ttl cache cache' →
            Minimal maxEntries key cache.entries cache'.entries) ↔
          Admits maxEntries cache.entries key) ∧
    ∀ (history : List (ℕ × ApiCache.Call)) (cache : ApiCache),
      ApiCache.Run maxEntries defaultTtl history cache →
      ∀ (now : ℕ) (key : String) (body : Bytes) (status : StatusCode),
        (∀ cache', ApiCache.Set now key body status cache cache' →
            Minimal maxEntries key cache.entries cache'.entries) ↔
          Admits maxEntries cache.entries key := by
  constructor
  · intro history cache h now key value
    -- A write without a time to live has the one of the cache.
    exact ⟨h.setWithTtl_minimal_iff now key value cache.defaultTtl,
      h.setWithTtl_minimal_iff now key value⟩
  · intro history cache h
    exact h.set_minimal_iff

end Evictions

/-! ## A cache of two entries -/

namespace TwoEntries

open IntelligenceCache

/-- A new key evicts the oldest one. -/
theorem third_minimal : Minimal 2 "key3" two.entries (after "key3").entries := by
  refine ((evicts_minimally_iff.1 _ two run_two 3 "key3" 3).1.mpr ?_) _ (set_after "key3")
  exact ⟨by decide, fun hmem => absurd hmem (by decide)⟩

/-- A key that is written again evicts another one. -/
theorem rewrite_evicts : Run 2 60 [(2, .set "key2" 2), (1, .set "key1" 1)] two ∧
    Set 3 "key2" 3 two (after "key2") ∧ two.get 3 "key1" = some 1 ∧
    (after "key2").get 3 "key1" = none ∧
    ¬ Minimal 2 "key2" two.entries (after "key2").entries := by
  refine ⟨run_two, set_after "key2", by decide, by decide, fun h => ?_⟩
  have hkept := h.kept (.inl (by decide)) "key1" (by decide)
  exact absurd hkept (by decide)

end TwoEntries

end ChainLens
