import ChainLens.Library.Expiring

/-!
# The cache of the intelligence layer

A cache maps keys to values that expire. Every call takes a lock, so that the calls of a cache come
one after the other, at times that do not decrease.

## Main definitions

* `IntelligenceCache`: the cache with its operations
* `IntelligenceCache.Run`: the caches that calls lead to, with the calls

## Main results

* `IntelligenceCache.get_last_write`: a value that is returned was set by the last call that wrote
  or removed its key, and is no older than this call allowed
-/

namespace ChainLens

open Expiring

structure IntelligenceCache (T : Type) where
  entries : Entries String T
  maxEntries : ℕ
  defaultTtl : ℕ

namespace IntelligenceCache

variable {T : Type}

/-! ## Operations -/

def new (maxEntries defaultTtl : ℕ) : IntelligenceCache T := ⟨∅, maxEntries, defaultTtl⟩

def get (now : ℕ) (key : String) (cache : IntelligenceCache T) : Option T :=
  Expiring.get now cache.entries key

/-- Which of the oldest entries is evicted depends on the order of the hash map. -/
def SetWithTtl (now : ℕ) (key : String) (value : T) (ttl : ℕ) (cache cache' : IntelligenceCache T) :
    Prop :=
  ∃ entries, Write cache.maxEntries now key value ttl cache.entries entries ∧
    cache' = { cache with entries }

def Set (now : ℕ) (key : String) (value : T) (cache cache' : IntelligenceCache T) : Prop :=
  SetWithTtl now key value cache.defaultTtl cache cache'

def remove (key : String) (cache : IntelligenceCache T) : IntelligenceCache T :=
  { cache with entries := cache.entries.erase key }

def clear (cache : IntelligenceCache T) : IntelligenceCache T := { cache with entries := ∅ }

def cleanupExpired (now : ℕ) (cache : IntelligenceCache T) : IntelligenceCache T :=
  { cache with entries := retain (fun _ entry => ¬ entry.Expired now) cache.entries }

/-! ## Calls -/

inductive Call (T : Type) where
  | set (key : String) (value : T)
  | setWithTtl (key : String) (value : T) (ttl : ℕ)
  | remove (key : String)
  | clear
  | cleanupExpired
  | get (key : String)

/-- What a call at a time makes of a cache. -/
inductive Step (now : ℕ) (cache : IntelligenceCache T) : Call T → IntelligenceCache T → Prop where
  | set {cache' : IntelligenceCache T} {key : String} {value : T}
      (h : Set now key value cache cache') : Step now cache (.set key value) cache'
  | setWithTtl {cache' : IntelligenceCache T} {key : String} {value : T} {ttl : ℕ}
      (h : SetWithTtl now key value ttl cache cache') :
      Step now cache (.setWithTtl key value ttl) cache'
  | remove (key : String) : Step now cache (.remove key) (cache.remove key)
  | clear : Step now cache .clear cache.clear
  | cleanupExpired : Step now cache .cleanupExpired (cache.cleanupExpired now)
  | get (key : String) : Step now cache (.get key) cache

/-- The last call of a history was no later. -/
def Since (history : List (ℕ × Call T)) (now : ℕ) : Prop := ∀ call ∈ history.head?, call.1 ≤ now

@[simp] theorem since_nil (now : ℕ) : Since ([] : List (ℕ × Call T)) now := nofun

@[simp] theorem since_cons {time now : ℕ} {call : Call T} {history : List (ℕ × Call T)} :
    Since ((time, call) :: history) now ↔ time ≤ now := by
  simp [Since]

/-- The caches that calls lead to from a new one, with the calls and their times, last call
first. -/
inductive Run (maxEntries defaultTtl : ℕ) : List (ℕ × Call T) → IntelligenceCache T → Prop where
  | new : Run maxEntries defaultTtl [] (new maxEntries defaultTtl)
  | call {history : List (ℕ × Call T)} {cache cache' : IntelligenceCache T} {now : ℕ}
      {call : Call T} (h : Run maxEntries defaultTtl history cache) (hclock : Since history now)
      (hstep : Step now cache call cache') :
      Run maxEntries defaultTtl ((now, call) :: history) cache'

/-! ## What is returned -/

namespace Call

/-- The call writes or removes the key, or clears the cache. -/
def Touches (key : String) : Call T → Prop
  | set key' _ | setWithTtl key' _ _ | remove key' => key' = key
  | clear => True
  | cleanupExpired | get _ => False

instance (key : String) (call : Call T) : Decidable (call.Touches key) := by
  cases call <;> unfold Touches <;> infer_instance

/-- The entry a call makes. -/
def entry (defaultTtl now : ℕ) : Call T → Option (Entry T)
  | set _ value => some ⟨value, now, defaultTtl⟩
  | setWithTtl _ value ttl => some ⟨value, now, ttl⟩
  | remove _ | clear | cleanupExpired | get _ => none

end Call

/-- The last call that touched a key, with its time. -/
def lastTouch (history : List (ℕ × Call T)) (key : String) : Option (ℕ × Call T) :=
  history.find? fun call => call.2.Touches key

/-- The entries that the calls would have left without evictions and expiry. -/
def record (defaultTtl : ℕ) (history : List (ℕ × Call T)) (key : String) : Option (Entry T) :=
  (lastTouch history key).bind fun call => call.2.entry defaultTtl call.1

theorem record_cons (defaultTtl now : ℕ) (call : Call T) (history : List (ℕ × Call T))
    (key : String) : record defaultTtl ((now, call) :: history) key =
      if call.Touches key then call.entry defaultTtl now else record defaultTtl history key := by
  rw [record, lastTouch, List.find?_cons]
  by_cases h : call.Touches key <;> simp [h, record, lastTouch]

section Record

variable (defaultTtl now : ℕ) (history : List (ℕ × Call T)) (key : String)

theorem record_setWithTtl (value : T) (ttl : ℕ) :
    record defaultTtl ((now, .setWithTtl key value ttl) :: history) =
      Function.update (record defaultTtl history) key (some ⟨value, now, ttl⟩) := by
  funext k
  rw [record_cons, Function.update_apply]
  exact if_congr eq_comm rfl rfl

theorem record_set (value : T) : record defaultTtl ((now, .set key value) :: history) =
    Function.update (record defaultTtl history) key (some ⟨value, now, defaultTtl⟩) := by
  funext k
  rw [record_cons, Function.update_apply]
  exact if_congr eq_comm rfl rfl

theorem record_remove : record defaultTtl ((now, .remove key) :: history) =
    Function.update (record defaultTtl history) key none := by
  funext k
  rw [record_cons, Function.update_apply]
  exact if_congr eq_comm rfl rfl

end Record

section Run

variable {maxEntries defaultTtl now : ℕ} {history : List (ℕ × Call T)}
  {cache cache' : IntelligenceCache T}

theorem Run.config (h : Run maxEntries defaultTtl history cache) :
    cache.maxEntries = maxEntries ∧ cache.defaultTtl = defaultTtl := by
  induction h with
  | new => exact ⟨rfl, rfl⟩
  | call _ _ hstep ih =>
    cases hstep with
    | set h | setWithTtl h =>
      obtain ⟨entries, -, rfl⟩ := h
      exact ih
    | remove | clear | cleanupExpired | get => exact ih

/-- **The bound of a run**, which is at least one. -/
theorem Run.length_le (h : Run maxEntries defaultTtl history cache) :
    cache.entries.keys.length ≤ max maxEntries 1 := by
  induction h with
  | new => exact Nat.zero_le _
  | call h _ hstep ih =>
    rw [← h.config.1] at ih ⊢
    cases hstep with
    | set hset | setWithTtl hset =>
      -- The invariant is the bound itself, since room is made before every write.
      obtain ⟨entries, hwrite, rfl⟩ := hset
      exact length_write_le ih hwrite
    | remove key =>
      refine le_trans ?_ ih
      rw [remove, AList.keys_erase]
      exact List.length_erase_le
    | clear => exact Nat.zero_le _
    | cleanupExpired => exact (length_retain_le _ _).trans ih
    | get => exact ih

/-- The times of a history are no later than its last one. -/
theorem Run.time_le (h : Run maxEntries defaultTtl history cache) (hclock : Since history now) :
    ∀ call ∈ history, call.1 ≤ now := by
  induction h generalizing now with
  | new => exact List.forall_mem_nil _
  | @call _ _ _ now' _ _ hclock' _ ih =>
    have hle : now' ≤ now := hclock _ rfl
    exact List.forall_mem_cons.mpr ⟨hle, fun call hcall => (ih hclock' call hcall).trans hle⟩

/-- A call keeps the entries within the record. -/
theorem Step.within {call : Call T} (hstep : Step now cache call cache')
    (h : Within (record cache.defaultTtl history) cache.entries) :
    Within (record cache.defaultTtl ((now, call) :: history)) cache'.entries := by
  cases hstep with
  | set hset =>
    obtain ⟨entries, hwrite, rfl⟩ := hset
    rw [record_set]
    exact h.write hwrite
  | setWithTtl hset =>
    obtain ⟨entries, hwrite, rfl⟩ := hset
    rw [record_setWithTtl]
    exact h.write hwrite
  | remove key =>
    rw [record_remove]
    exact h.erase key
  | clear => exact Within.empty
  | cleanupExpired => exact h.retain _
  | get key => exact h

/-- **The invariant of a run**: every entry was made by the last call that touched its key. -/
theorem Run.within (h : Run maxEntries defaultTtl history cache) :
    Within (record defaultTtl history) cache.entries := by
  induction h with
  | new => exact Within.empty
  | call h _ hstep ih =>
    rw [← h.config.2] at ih ⊢
    exact hstep.within ih

/-- **What is returned** was set under its key by the last call that wrote or removed the key or
cleared the cache, no longer ago than this call allowed. -/
theorem get_last_write (h : Run maxEntries defaultTtl history cache) (hclock : Since history now)
    {key : String} {value : T} (hget : cache.get now key = some value) :
    ∃ time call, lastTouch history key = some (time, call) ∧ time ≤ now ∧
      (call = .set key value ∧ now - time ≤ defaultTtl ∨
        ∃ ttl, call = .setWithTtl key value ttl ∧ now - time ≤ ttl) := by
  obtain ⟨e, hrecord, hfresh, rfl⟩ := h.within.get hget
  obtain ⟨⟨time, call⟩, hlast, hentry⟩ := Option.bind_eq_some_iff.mp hrecord
  refine ⟨time, call, hlast, h.time_le hclock _ (List.mem_of_find?_eq_some hlast), ?_⟩
  have htouches : call.Touches key := by simpa using List.find?_some hlast
  rw [Entry.Expired, Nat.not_lt] at hfresh
  -- Only a call that sets a value makes an entry.
  cases call with
  | set key' value' =>
    obtain rfl : key' = key := htouches
    cases hentry
    exact .inl ⟨rfl, hfresh⟩
  | setWithTtl key' value' ttl =>
    obtain rfl : key' = key := htouches
    cases hentry
    exact .inr ⟨ttl, rfl, hfresh⟩
  | remove | clear | cleanupExpired | get => cases hentry

end Run

end IntelligenceCache

/-! ## A cache of two entries -/

namespace TwoEntries

open IntelligenceCache

def one : IntelligenceCache ℕ := ⟨AList.insert "key1" ⟨1, 1, 60⟩ ∅, 2, 60⟩

def two : IntelligenceCache ℕ := { one with entries := one.entries.insert "key2" ⟨2, 2, 60⟩ }

/-- The first key is evicted by a write of another one. -/
def after (key : String) : IntelligenceCache ℕ :=
  { two with entries := (two.entries.erase "key1").insert key ⟨3, 3, 60⟩ }

theorem run_two : Run 2 60 [(2, .set "key2" 2), (1, .set "key1" 1)] two := by
  have hone : Set 1 "key1" 1 (new 2 60) one := ⟨_, ⟨_, .room (by decide), rfl⟩, rfl⟩
  have htwo : Set 2 "key2" 2 one two := ⟨_, ⟨_, .room (by decide), rfl⟩, rfl⟩
  exact (Run.new.call (by simp) (.set hone)).call (by simp) (.set htwo)

theorem set_after (key : String) : Set 3 key 3 two (after key) := by
  -- The first key is the oldest one of the two entries.
  refine ⟨_, ⟨_, .evict (by decide) ⟨⟨1, 1, 60⟩, rfl, fun k' e' hk' => ?_⟩, rfl⟩, rfl⟩
  have hentries : two.entries.entries = [⟨"key2", ⟨2, 2, 60⟩⟩, ⟨"key1", ⟨1, 1, 60⟩⟩] := by decide
  have hmem := AList.mem_lookup_iff.mp hk'
  rw [hentries] at hmem
  simp only [List.mem_cons, List.not_mem_nil, or_false] at hmem
  rcases hmem with h | h <;> cases h <;> decide

/-- The second key is removed, and the third one is written again, for longer. -/
def rewritten : IntelligenceCache ℕ :=
  let removed := (after "key3").remove "key2"
  { removed with entries := removed.entries.insert "key3" ⟨5, 5, 100⟩ }

/-- The calls that lead there, with an eviction on the way. -/
def history : List (ℕ × Call ℕ) :=
  [(5, .setWithTtl "key3" 5 100), (4, .remove "key2"), (3, .set "key3" 3), (2, .set "key2" 2),
    (1, .set "key1" 1)]

theorem run_rewritten : Run 2 60 history rewritten := by
  have hrewrite : SetWithTtl 5 "key3" 5 100 ((after "key3").remove "key2") rewritten :=
    ⟨_, ⟨_, .room (by decide), rfl⟩, rfl⟩
  have hthird := run_two.call (by simp) (.set (set_after "key3"))
  exact (hthird.call (by simp) (.remove "key2")).call (by simp) (.setWithTtl hrewrite)

/-- The value that was written last is returned, though its first time to live would be over. -/
theorem rewritten_last_write : ∃ time call, lastTouch history "key3" = some (time, call) ∧
    time ≤ 100 ∧ (call = .set "key3" 5 ∧ 100 - time ≤ 60 ∨
      ∃ ttl, call = .setWithTtl "key3" 5 ttl ∧ 100 - time ≤ ttl) :=
  get_last_write run_rewritten (since_cons.mpr (by decide)) (by decide)

end TwoEntries

end ChainLens
