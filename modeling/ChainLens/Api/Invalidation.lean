import ChainLens.Api.Cache
import ChainLens.Rpc.Deserialize
import Mathlib.Tactic.IntervalCases

/-!
# Invalidating responses by a prefix

Responses are invalidated by a prefix of their keys, while the key of a request is the hash of its
method, path and query in hex. A prefix of a path is therefore no prefix of the key, and leaves the
responses in the cache.

## Main definitions

* `cacheKey`: the key of a request
* `ApiCache.PrefixInvalidates`: the responses of the requests under a path prefix are gone, and the
  others are there

## Main results

* `ApiCache.prefixInvalidates_iff`: which keys allow this
* `cacheKey_invalidates_iff`: when hashed keys do
-/

namespace ChainLens

open Expiring

/-! ## Keys -/

structure KeyedRequest where
  method : String
  path : String
  query : String
deriving DecidableEq

/-- What a new `DefaultHasher` finishes with after these writes. Its algorithm is not specified. -/
abbrev DefaultHasher := List Bytes → UInt64

/-- The writes of `str::hash`: the text, and a byte that is in no text. -/
def strHash (text : String) : List Bytes := [text.toUTF8.toList, [0xff]]

/-- `format!("{:x}", hasher.finish())`. -/
def cacheKey (hasher : DefaultHasher) (method path query : String) : String :=
  .ofList (Nat.toDigits 16 (hasher (strHash method ++ strHash path ++ strHash query)).toNat)

namespace KeyedRequest

variable (hasher : DefaultHasher) (request : KeyedRequest)

def hash : UInt64 :=
  hasher (strHash request.method ++ strHash request.path ++ strHash request.query)

def hashDigits : List Char := Nat.toDigits 16 (request.hash hasher).toNat

def cacheKey : String := ChainLens.cacheKey hasher request.method request.path request.query

@[simp] theorem toList_cacheKey : (request.cacheKey hasher).toList = request.hashDigits hasher :=
  String.toList_ofList

/-- Keys are told apart exactly as well as the hashes are. -/
theorem cacheKey_eq_iff {request' : KeyedRequest} :
    request.cacheKey hasher = request'.cacheKey hasher ↔
      request.hash hasher = request'.hash hasher := by
  constructor
  · intro hkeys
    have hdigits : request.hashDigits hasher = request'.hashDigits hasher := by
      rw [← toList_cacheKey, hkeys, toList_cacheKey]
    -- Digits behind 0x are read as the number again.
    have htexts : quantityText (request.hash hasher).toNat =
        quantityText (request'.hash hasher).toNat :=
      congrArg (fun digits => String.ofList ('0' :: 'x' :: digits)) hdigits
    have hread := HexQuantity.u64_quantityText_toNat (request.hash hasher)
    rw [htexts, HexQuantity.u64_quantityText_toNat] at hread
    exact (UInt64.toNat_inj.mp (Option.some.inj hread)).symm
  · intro hhashes
    apply String.toList_inj.mp
    rw [toList_cacheKey, toList_cacheKey, hashDigits, hashDigits, hhashes]

end KeyedRequest

def lowerHexDigits : List Char := "0123456789abcdef".toList

theorem mem_toDigits_sixteen (n : ℕ) : ∀ c ∈ Nat.toDigits 16 n, c ∈ lowerHexDigits := by
  induction n using Nat.strong_induction_on with
  | _ n ih =>
    have hdigit (d : ℕ) (hd : d < 16) : Nat.digitChar d ∈ lowerHexDigits := by
      interval_cases d <;> decide
    rw [Nat.toDigits_eq_if (by omega)]
    -- The last digit stands behind those of the quotient.
    split
    next hlt => simpa using hdigit n hlt
    next hge =>
      intro c hc
      rcases List.mem_append.mp hc with hc | hc
      · exact ih (n / 16) (by omega) c hc
      · rw [List.mem_singleton.mp hc]
        exact hdigit _ (by omega)

theorem not_lowerHexDigits_of_slash {start : List Char} (h : '/' ∈ start) :
    ¬ ∀ c ∈ start, c ∈ lowerHexDigits :=
  fun hall => absurd (hall '/' h) (by decide)

/-- A text with another character is no prefix of a key. -/
theorem KeyedRequest.not_prefix_hashDigits {start : List Char}
    (h : ¬ ∀ c ∈ start, c ∈ lowerHexDigits) (hasher : DefaultHasher) (request : KeyedRequest) :
    ¬ start <+: request.hashDigits hasher :=
  fun hbegin => h fun c hc => mem_toDigits_sixteen _ c (hbegin.subset hc)

namespace ApiCache

/-! ## Stored responses -/

/-- A call of `set` for a request. -/
structure Insertion where
  time : ℕ
  request : KeyedRequest
  body : Bytes
  status : StatusCode

section Stored

variable (key : KeyedRequest → String) (sets : List Insertion)

/-- The calls, last one first. -/
def history : List (ℕ × Call) :=
  sets.map fun i => (i.time, .set (key i.request) i.body i.status)

/-- The last call under the key of a call. -/
def lastUnder (k : String) : Option Insertion := sets.find? fun i => key i.request = k

/-- The response of a call is in the cache, and has not expired: the call is the last one under its
key, and was not evicted. -/
structure Live (cache : ApiCache) (now : ℕ) (i : Insertion) : Prop where
  last : lastUnder key sets (key i.request) = some i
  stored : key i.request ∈ cache.entries
  fresh : now - i.time ≤ cache.defaultTtl

/-- After the invalidation of a prefix, nothing is returned for the requests whose path starts with
it, and the responses of the others are returned until they expire. -/
structure PrefixInvalidates (cache : ApiCache) (start : String) (now : ℕ) : Prop where
  removed : ∀ i ∈ sets, start.toList <+: i.request.path.toList →
    (cache.invalidatePrefix start).get now (key i.request) = none
  kept : ∀ i, Live key sets cache now i → ¬ start.toList <+: i.request.path.toList →
    (cache.invalidatePrefix start).get now (key i.request) = some (i.body, i.status)

/-- The key of a response starts with a prefix only if its path does, and if the path of any request
with this key does. -/
def KeysAgree (cache : ApiCache) (start : String) (now : ℕ) : Prop :=
  ∀ i, Live key sets cache now i →
    (start.toList <+: (key i.request).toList → start.toList <+: i.request.path.toList) ∧
      ∀ j ∈ sets, key j.request = key i.request → start.toList <+: j.request.path.toList →
        start.toList <+: (key i.request).toList

end Stored

section Reached

variable {key : KeyedRequest → String} {sets : List Insertion} {maxEntries defaultTtl now : ℕ}
  {cache : ApiCache} {start : String}

/-- The entry that the last call under a key made. -/
def record (key : KeyedRequest → String) (defaultTtl : ℕ) (sets : List Insertion) (k : String) :
    Option (Entry (Bytes × StatusCode)) :=
  (lastUnder key sets k).map fun i => ⟨(i.body, i.status), i.time, defaultTtl⟩

theorem record_cons (i : Insertion) (sets : List Insertion) :
    record key defaultTtl (i :: sets) = Function.update (record key defaultTtl sets) (key i.request)
      (some ⟨(i.body, i.status), i.time, defaultTtl⟩) := by
  funext k
  rw [Function.update_apply, record, lastUnder, List.find?_cons]
  by_cases h : key i.request = k
  · simp [h]
  · simp [h, Ne.symm h, record, lastUnder]

/-- **Every entry** was made by the last call under its key. -/
theorem Run.within (h : Run maxEntries defaultTtl (history key sets) cache) :
    Within (record key defaultTtl sets) cache.entries := by
  generalize hhistory : history key sets = calls at h
  induction h generalizing sets with
  | new => exact Within.empty
  | call h _ hstep ih =>
    obtain ⟨i, rest, rfl, hcall, hrest⟩ := List.map_eq_cons_iff.mp hhistory
    cases hcall
    cases hstep with
    | set hset =>
      obtain ⟨entries, hwrite, rfl⟩ := hset
      rw [h.config.2] at hwrite
      rw [record_cons]
      exact (ih hrest).write hwrite

/-! ## What is returned -/

theorem get_invalidatePrefix (cache : ApiCache) (start : String) (now : ℕ) (k : String) :
    (cache.invalidatePrefix start).get now k =
      if start.toList <+: k.toList then none else cache.get now k := by
  rw [ApiCache.get, Expiring.get, invalidatePrefix, lookup_retain, ApiCache.get, Expiring.get]
  cases cache.entries.lookup k with
  | none => simp
  | some e => by_cases h : start.toList <+: k.toList <;> simp [h, Option.filter]

/-- What is live is returned. -/
theorem Live.get_eq (h : Run maxEntries defaultTtl (history key sets) cache) {i : Insertion}
    (hlive : Live key sets cache now i) :
    cache.get now (key i.request) = some (i.body, i.status) := by
  obtain ⟨e, he⟩ := Option.isSome_iff_exists.mp (AList.lookup_isSome.mpr hlive.stored)
  have hrecord := h.within _ _ he
  rw [record, hlive.last] at hrecord
  cases hrecord
  refine get_eq_some_iff.mpr ⟨_, he, ?_, rfl⟩
  have hfresh := hlive.fresh
  rw [h.config.2] at hfresh
  exact Nat.not_lt.mpr hfresh

/-- What is returned is live. -/
theorem exists_live_of_get (h : Run maxEntries defaultTtl (history key sets) cache) {k : String}
    {response : Bytes × StatusCode} (hget : cache.get now k = some response) :
    ∃ i, Live key sets cache now i ∧ key i.request = k := by
  obtain ⟨e, he, hfresh, -⟩ := get_eq_some_iff.mp hget
  obtain ⟨i, hlast, rfl⟩ := Option.map_eq_some_iff.mp (h.within k e he)
  have hkey : key i.request = k := by simpa using List.find?_some hlast
  subst hkey
  refine ⟨i, ⟨hlast, AList.lookup_isSome.mp (by rw [he]; rfl), ?_⟩, rfl⟩
  rw [h.config.2]
  exact Nat.not_lt.mp hfresh

/-- **Which keys allow to invalidate by a prefix** of the paths. -/
theorem prefixInvalidates_iff (h : Run maxEntries defaultTtl (history key sets) cache)
    (start : String) (now : ℕ) :
    PrefixInvalidates key sets cache start now ↔ KeysAgree key sets cache start now := by
  constructor
  · intro hinvalidates i hlive
    constructor
    · intro hkey
      by_contra hpath
      have hkept := hinvalidates.kept i hlive hpath
      rw [get_invalidatePrefix, if_pos hkey] at hkept
      cases hkept
    · intro j hj hkeys hpath
      by_contra hkey
      have hremoved := hinvalidates.removed j hj hpath
      rw [hkeys, get_invalidatePrefix, if_neg hkey, hlive.get_eq h] at hremoved
      cases hremoved
  · intro hagree
    constructor
    · intro j hj hpath
      rw [get_invalidatePrefix]
      split
      next => rfl
      next hkey =>
        cases hget : cache.get now (key j.request) with
        | none => rfl
        | some response =>
          -- The response is that of a call under the same key.
          obtain ⟨i, hlive, hkeys⟩ := exists_live_of_get h hget
          have hbegin := (hagree i hlive).2 j hj hkeys.symm hpath
          rw [hkeys] at hbegin
          exact absurd hbegin hkey
    · intro i hlive hpath
      have hkey : ¬ start.toList <+: (key i.request).toList := fun hkey =>
        hpath ((hagree i hlive).1 hkey)
      rw [get_invalidatePrefix, if_neg hkey, hlive.get_eq h]

/-- Paths as keys do. -/
theorem pathKeys_invalidate (h : Run maxEntries defaultTtl (history KeyedRequest.path sets) cache)
    (start : String) (now : ℕ) : PrefixInvalidates KeyedRequest.path sets cache start now := by
  refine (prefixInvalidates_iff h start now).mpr fun i _ => ⟨id, fun j _ hkeys hpath => ?_⟩
  rwa [← hkeys]

end Reached

end ApiCache

section HashedKeys

open ApiCache

variable {hasher : DefaultHasher} {sets : List Insertion} {maxEntries defaultTtl : ℕ}
  {cache : ApiCache}

/-- The hash of a response, in hex, starts with a prefix only if its path does, and if the path of
any request with this hash does. -/
def HashesAgree (hasher : DefaultHasher) (sets : List Insertion) (cache : ApiCache) (start : String)
    (now : ℕ) : Prop :=
  ∀ i, Live (KeyedRequest.cacheKey hasher) sets cache now i →
    (start.toList <+: i.request.hashDigits hasher → start.toList <+: i.request.path.toList) ∧
      ∀ j ∈ sets, j.request.hash hasher = i.request.hash hasher →
        start.toList <+: j.request.path.toList → start.toList <+: i.request.hashDigits hasher

/-- **When hashed keys allow to invalidate by a prefix** of the paths. With a prefix that is no hex
text they only do where nothing is returned for the requests under it. -/
theorem cacheKey_invalidates_iff
    (h : Run maxEntries defaultTtl (history (KeyedRequest.cacheKey hasher) sets) cache)
    (start : String) (now : ℕ) :
    (PrefixInvalidates (KeyedRequest.cacheKey hasher) sets cache start now ↔
      HashesAgree hasher sets cache start now) ∧
    ((¬ ∀ c ∈ start.toList, c ∈ lowerHexDigits) →
      (PrefixInvalidates (KeyedRequest.cacheKey hasher) sets cache start now ↔
        ∀ i, Live (KeyedRequest.cacheKey hasher) sets cache now i → ∀ j ∈ sets,
          j.request.hash hasher = i.request.hash hasher →
            ¬ start.toList <+: j.request.path.toList)) := by
  have hagree : PrefixInvalidates (KeyedRequest.cacheKey hasher) sets cache start now ↔
      HashesAgree hasher sets cache start now := by
    rw [prefixInvalidates_iff h start now]
    simp only [KeysAgree, HashesAgree, KeyedRequest.toList_cacheKey, KeyedRequest.cacheKey_eq_iff]
  refine ⟨hagree, fun hstart => hagree.trans ?_⟩
  have hnever := KeyedRequest.not_prefix_hashDigits hstart hasher
  constructor
  · intro hagree i hlive j hj hhashes hpath
    exact hnever i.request ((hagree i hlive).2 j hj hhashes hpath)
  · intro hnone i hlive
    exact ⟨fun hdigits => absurd hdigits (hnever i.request),
      fun j hj hhashes hpath => absurd hpath (hnone i hlive j hj hhashes)⟩

end HashedKeys

/-! ## A response under a hashed key -/

namespace HashedKey

open ApiCache

def block : Insertion where
  time := 0
  request := ⟨"GET", "/api/v1/blocks/100", ""⟩
  body := [0x7b, 0x7d]
  status := 200

variable (hasher : DefaultHasher)

def key : String := block.request.cacheKey hasher

def cache : ApiCache := ⟨AList.insert (key hasher) ⟨(block.body, block.status), 0, 60⟩ ∅, 100, 60⟩

theorem run_cache : Run 100 60 (history (KeyedRequest.cacheKey hasher) [block]) (cache hasher) := by
  have hset : Set 0 (key hasher) block.body block.status (new 100 60) (cache hasher) :=
    ⟨_, ⟨_, .room (by decide), rfl⟩, rfl⟩
  exact Run.new.call nofun (.set hset)

theorem live_block : Live (KeyedRequest.cacheKey hasher) [block] (cache hasher) 1 block where
  last := by simp [lastUnder]
  stored := (AList.mem_insert _).mpr (.inl rfl)
  fresh := show 1 ≤ 60 by decide

/-- The block is kept when addresses are invalidated. -/
theorem block_kept : ¬ "/api/v1/addresses".toList <+: block.request.path.toList ∧
    ∀ hasher, PrefixInvalidates (KeyedRequest.cacheKey hasher) [block] (cache hasher)
      "/api/v1/addresses" 1 := by
  refine ⟨by decide, fun hasher => ?_⟩
  have hslash : ¬ ∀ c ∈ "/api/v1/addresses".toList, c ∈ lowerHexDigits :=
    not_lowerHexDigits_of_slash (by decide)
  apply ((cacheKey_invalidates_iff (run_cache hasher) "/api/v1/addresses" 1).2 hslash).mpr
  intro i _ j hj _
  rw [List.mem_singleton.mp hj]
  decide

/-- So it is when blocks are invalidated. -/
theorem block_survives : "/api/v1/blocks".toList <+: block.request.path.toList ∧
    ∀ hasher, Run 100 60 (history (KeyedRequest.cacheKey hasher) [block]) (cache hasher) ∧
      ((cache hasher).invalidatePrefix "/api/v1/blocks").get 1 (key hasher) =
        some (block.body, block.status) ∧
      ¬ PrefixInvalidates (KeyedRequest.cacheKey hasher) [block] (cache hasher)
        "/api/v1/blocks" 1 := by
  refine ⟨by decide, fun hasher => ?_⟩
  have hkey : ¬ "/api/v1/blocks".toList <+: (key hasher).toList := by
    rw [key, KeyedRequest.toList_cacheKey]
    exact KeyedRequest.not_prefix_hashDigits (not_lowerHexDigits_of_slash (by decide)) hasher
      block.request
  have hget : ((cache hasher).invalidatePrefix "/api/v1/blocks").get 1 (key hasher) =
      some (block.body, block.status) := by
    rw [get_invalidatePrefix, if_neg hkey]
    exact (live_block hasher).get_eq (run_cache hasher)
  refine ⟨run_cache hasher, hget, fun hinvalidates => ?_⟩
  have hremoved := hinvalidates.removed block List.mem_cons_self (by decide)
  exact absurd (hget.symm.trans hremoved) (by simp)

end HashedKey

end ChainLens
