import Mathlib.Data.List.AList
import Mathlib.Data.List.MinMax
import Mathlib.Tactic.Common

/-!
# Bounded maps with expiring entries

The entries of a map carry the time of their insertion and how long they are valid. A write first
makes room where the map is full, by dropping an entry of the earliest insertion time; which one,
where there are several, is open.

## Main definitions

* `Expiring.get`, `Expiring.retain`, `Expiring.Write`: the operations
* `Expiring.Within`: every entry is the one a record has under its key
* `Expiring.Minimal`: a write keeps the bound and drops no more than it needs to

## Main results

* `Within.write`, `Within.erase`, `Within.retain`: entries stay within the record
* `length_write_le`: a write keeps the bound
* `minimal_iff`: when a write is minimal
-/

namespace Expiring

structure Entry (α : Type) where
  value : α
  insertedAt : ℕ
  ttl : ℕ
deriving DecidableEq

/-- More time passed since the insertion than the entry is valid for. -/
def Entry.Expired {α : Type} (now : ℕ) (e : Entry α) : Prop := e.ttl < now - e.insertedAt

instance {α : Type} (now : ℕ) (e : Entry α) : Decidable (e.Expired now) :=
  inferInstanceAs (Decidable (_ < _))

abbrev Entries (κ α : Type) := AList fun _ : κ => Entry α

variable {κ α : Type} [DecidableEq κ] {entries entries' : Entries κ α}

/-! ## Operations -/

/-- The value under a key, unless it expired. -/
def get (now : ℕ) (entries : Entries κ α) (k : κ) : Option α :=
  (entries.lookup k).bind fun e => if e.Expired now then none else some e.value

/-- The entries that pass a test. -/
def retain (p : κ → Entry α → Bool) (entries : Entries κ α) : Entries κ α where
  entries := entries.entries.filter fun s => p s.1 s.2
  nodupKeys := entries.nodupKeys.sublist List.filter_sublist

/-- The key has an entry, and none was inserted earlier. -/
def Oldest (entries : Entries κ α) (k : κ) : Prop :=
  ∃ e, entries.lookup k = some e ∧
    ∀ k' e', entries.lookup k' = some e' → e.insertedAt ≤ e'.insertedAt

/-- What is left where there are fewer than so many entries, or after one of the oldest was dropped;
an empty map is left as it is. -/
inductive MakeRoom (maxEntries : ℕ) (entries : Entries κ α) : Entries κ α → Prop where
  | room (h : entries.keys.length < maxEntries) : MakeRoom maxEntries entries entries
  | empty (h : maxEntries ≤ entries.keys.length) (hnil : entries.keys = []) :
      MakeRoom maxEntries entries entries
  | evict {k : κ} (h : maxEntries ≤ entries.keys.length) (hk : Oldest entries k) :
      MakeRoom maxEntries entries (entries.erase k)

/-- An entry is inserted after room was made for it. -/
def Write (maxEntries now : ℕ) (k : κ) (value : α) (ttl : ℕ) (entries entries' : Entries κ α) :
    Prop :=
  ∃ rest, MakeRoom maxEntries entries rest ∧ entries' = rest.insert k ⟨value, now, ttl⟩

theorem get_eq_some_iff {now : ℕ} {k : κ} {value : α} : get now entries k = some value ↔
    ∃ e, entries.lookup k = some e ∧ ¬ e.Expired now ∧ e.value = value := by
  rw [get, Option.bind_eq_some_iff]
  refine exists_congr fun e => and_congr_right fun _ => ?_
  split <;> simp [*]

theorem lookup_retain (p : κ → Entry α → Bool) (entries : Entries κ α) (k : κ) :
    (retain p entries).lookup k = (entries.lookup k).filter (p k) := by
  apply Option.ext
  intro e
  rw [← Option.mem_def, AList.mem_lookup_iff, Option.filter_eq_some_iff, ← Option.mem_def,
    AList.mem_lookup_iff]
  exact List.mem_filter

/-- Only the evicted key is missing. -/
theorem MakeRoom.lookup {maxEntries : ℕ} (h : MakeRoom maxEntries entries entries') {k : κ}
    {e : Entry α} (hk : entries'.lookup k = some e) : entries.lookup k = some e := by
  cases h with
  | room | empty => exact hk
  | @evict k' _ _ =>
    by_cases heq : k = k'
    · subst heq
      rw [AList.lookup_erase] at hk
      cases hk
    · rwa [AList.lookup_erase_ne heq] at hk

/-! ## The record -/

/-- Every entry is the one of the record under its key. -/
def Within (record : κ → Option (Entry α)) (entries : Entries κ α) : Prop :=
  ∀ k e, entries.lookup k = some e → record k = some e

namespace Within

variable {record : κ → Option (Entry α)}

theorem empty : Within record (∅ : Entries κ α) := by
  intro k e hk
  rw [AList.lookup_empty] at hk
  cases hk

/-- **A write** is within the record with its entry, whatever was dropped for it. -/
theorem write (h : Within record entries) {maxEntries now : ℕ} {k : κ} {value : α} {ttl : ℕ}
    (hwrite : Write maxEntries now k value ttl entries entries') :
    Within (Function.update record k (some ⟨value, now, ttl⟩)) entries' := by
  obtain ⟨rest, hroom, rfl⟩ := hwrite
  intro k' e hk'
  by_cases heq : k' = k
  · subst heq
    rw [AList.lookup_insert] at hk'
    rwa [Function.update_self]
  · rw [AList.lookup_insert_ne heq] at hk'
    rw [Function.update_of_ne heq]
    exact h k' e (hroom.lookup hk')

theorem retain (h : Within record entries) (p : κ → Entry α → Bool) :
    Within record (retain p entries) := by
  intro k e hk
  rw [lookup_retain, Option.filter_eq_some_iff] at hk
  exact h k e hk.1

/-- A key that is dropped can be dropped from the record. -/
theorem erase (h : Within record entries) (k : κ) :
    Within (Function.update record k none) (entries.erase k) := by
  intro k' e hk'
  by_cases heq : k' = k
  · subst heq
    rw [AList.lookup_erase] at hk'
    cases hk'
  · rw [AList.lookup_erase_ne heq] at hk'
    rw [Function.update_of_ne heq]
    exact h k' e hk'

/-- What is returned is the value of the record, and has not expired. -/
theorem get (h : Within record entries) {now : ℕ} {k : κ} {value : α}
    (hget : Expiring.get now entries k = some value) :
    ∃ e, record k = some e ∧ ¬ e.Expired now ∧ e.value = value := by
  obtain ⟨e, hk, he⟩ := get_eq_some_iff.mp hget
  exact ⟨e, h k e hk, he⟩

end Within

/-! ## The bound -/

theorem length_insert_le (entries : Entries κ α) (k : κ) (e : Entry α) :
    (entries.insert k e).keys.length ≤ entries.keys.length + 1 := by
  rw [AList.keys_insert, List.length_cons]
  exact Nat.succ_le_succ List.length_erase_le

theorem length_erase {k : κ} (h : k ∈ entries) :
    (entries.erase k).keys.length = entries.keys.length - 1 := by
  rw [AList.keys_erase, List.length_erase_of_mem (AList.mem_keys.mp h)]

theorem Oldest.mem {k : κ} (h : Oldest entries k) : k ∈ entries := by
  obtain ⟨e, hk, -⟩ := h
  rw [← AList.lookup_isSome, hk]
  rfl

/-- **A write keeps the bound**, which is at least one. -/
theorem length_write_le {maxEntries now : ℕ} {k : κ} {value : α} {ttl : ℕ}
    (hbound : entries.keys.length ≤ max maxEntries 1)
    (hwrite : Write maxEntries now k value ttl entries entries') :
    entries'.keys.length ≤ max maxEntries 1 := by
  obtain ⟨rest, hroom, rfl⟩ := hwrite
  have hinsert := length_insert_le rest k ⟨value, now, ttl⟩
  cases hroom with
  | room h => omega
  | empty _ hnil =>
    rw [hnil, List.length_nil] at hinsert
    omega
  | evict _ hk =>
    rw [length_erase hk.mem] at hinsert
    omega

omit [DecidableEq κ] in
theorem length_retain_le (p : κ → Entry α → Bool) (entries : Entries κ α) :
    (retain p entries).keys.length ≤ entries.keys.length :=
  (List.filter_sublist.map Sigma.fst).length_le

/-! ## Minimal writes -/

/-- A write keeps the bound and the other entries, unless the key is new and the map is full; then
one of the oldest entries is dropped. -/
structure Minimal (maxEntries : ℕ) (k : κ) (entries entries' : Entries κ α) : Prop where
  bounded : entries'.keys.length ≤ maxEntries
  kept : k ∈ entries ∨ entries.keys.length < maxEntries →
    ∀ k' ≠ k, entries'.lookup k' = entries.lookup k'
  evicted : k ∉ entries → maxEntries ≤ entries.keys.length →
    ∃ k₀ ≠ k, Oldest entries k₀ ∧ entries'.lookup k₀ = none ∧
      ∀ k' ≠ k, k' ≠ k₀ → entries'.lookup k' = entries.lookup k'

/-- All other entries were inserted later. -/
def OnlyOldest (entries : Entries κ α) (k : κ) : Prop :=
  ∀ e, entries.lookup k = some e → ∀ k' ≠ k, ∀ e', entries.lookup k' = some e' →
    e.insertedAt < e'.insertedAt

/-- There may be entries, and a key that has one is not written to a full map unless it is the only
oldest one. -/
def Admits (maxEntries : ℕ) (entries : Entries κ α) (k : κ) : Prop :=
  1 ≤ maxEntries ∧ (k ∈ entries → entries.keys.length < maxEntries ∨ OnlyOldest entries k)

/-- A map with entries has an oldest one. -/
theorem exists_oldest (h : entries.keys ≠ []) : ∃ k, Oldest entries k := by
  let insertedAt : (Σ _ : κ, Entry α) → ℕ := fun s => s.2.insertedAt
  cases hmin : entries.entries.argmin insertedAt with
  | none =>
    rw [List.argmin_eq_none] at hmin
    exact absurd (congrArg List.keys hmin) h
  | some s =>
    refine ⟨s.1, s.2, AList.mem_lookup_iff.mpr (List.argmin_mem hmin), fun k' e' hk' => ?_⟩
    have hle : insertedAt s ≤ insertedAt ⟨k', e'⟩ :=
      List.le_of_mem_argmin (AList.mem_lookup_iff.mp hk') hmin
    exact hle

theorem exists_makeRoom (maxEntries : ℕ) (entries : Entries κ α) :
    ∃ rest, MakeRoom maxEntries entries rest := by
  rcases Nat.lt_or_ge entries.keys.length maxEntries with hroom | hfull
  · exact ⟨_, .room hroom⟩
  · by_cases hnil : entries.keys = []
    · exact ⟨_, .empty hfull hnil⟩
    · obtain ⟨k, hk⟩ := exists_oldest hnil
      exact ⟨_, .evict hfull hk⟩

/-- An entry under another key is an oldest one as well, if not all others were inserted later. -/
theorem exists_oldest_ne {k : κ} (hk : k ∈ entries) (h : ¬ OnlyOldest entries k) :
    ∃ k₀ ≠ k, Oldest entries k₀ := by
  obtain ⟨k₀, hk₀⟩ := exists_oldest (List.ne_nil_of_mem (AList.mem_keys.mp hk))
  by_cases heq : k₀ = k
  · -- An entry that was not inserted later is as old as the oldest one.
    subst heq
    simp only [OnlyOldest, not_forall, Nat.not_lt] at h
    obtain ⟨e, he, k', hne, e', he', hle⟩ := h
    obtain ⟨e₀, he₀, hmin⟩ := hk₀
    obtain rfl := Option.some.inj (he.symm.trans he₀)
    exact ⟨k', hne, e', he', fun k'' e'' he'' => hle.trans (hmin k'' e'' he'')⟩
  · exact ⟨k₀, heq, hk₀⟩

section Minimal

variable {maxEntries now : ℕ} {k : κ} {value : α} {ttl : ℕ}

/-- A write where there is room. -/
theorem minimal_of_room (hroom : entries.keys.length < maxEntries) (e : Entry α) :
    Minimal maxEntries k entries (entries.insert k e) where
  bounded := (length_insert_le entries k e).trans hroom
  kept _ _ hne := AList.lookup_insert_ne hne
  evicted _ hfull := absurd hfull (Nat.not_le.mpr hroom)

/-- A write where the key itself is dropped. -/
theorem minimal_of_self (hk : k ∈ entries) (hbound : entries.keys.length ≤ maxEntries)
    (e : Entry α) : Minimal maxEntries k entries ((entries.erase k).insert k e) where
  bounded := by
    have hinsert := length_insert_le (entries.erase k) k e
    have hpos := List.length_pos_of_mem (AList.mem_keys.mp hk)
    rw [length_erase hk] at hinsert
    omega
  kept _ k' hne := by rw [AList.lookup_insert_ne hne, AList.lookup_erase_ne hne]
  evicted hnew := absurd hk hnew

/-- A write of a new key where another one is dropped. -/
theorem minimal_of_evicted {k₀ : κ} (hk : k ∉ entries) (hk₀ : Oldest entries k₀)
    (hbound : entries.keys.length ≤ maxEntries) (hfull : maxEntries ≤ entries.keys.length)
    (e : Entry α) : Minimal maxEntries k entries ((entries.erase k₀).insert k e) where
  bounded := by
    have hinsert := length_insert_le (entries.erase k₀) k e
    have hpos := List.length_pos_of_mem (AList.mem_keys.mp hk₀.mem)
    rw [length_erase hk₀.mem] at hinsert
    omega
  kept h := by
    rcases h with h | h
    · exact absurd h hk
    · exact absurd hfull (Nat.not_le.mpr h)
  evicted _ _ := by
    have hne : k₀ ≠ k := by
      rintro rfl
      exact hk hk₀.mem
    refine ⟨k₀, hne, hk₀, ?_, fun k' hne' hne₀ => ?_⟩
    · rw [AList.lookup_insert_ne hne, AList.lookup_erase]
    · rw [AList.lookup_insert_ne hne', AList.lookup_erase_ne hne₀]

/-- **When a write is minimal**, however it makes room. -/
theorem minimal_iff (hbound : entries.keys.length ≤ max maxEntries 1) :
    (∀ entries', Write maxEntries now k value ttl entries entries' →
        Minimal maxEntries k entries entries') ↔ Admits maxEntries entries k := by
  constructor
  · intro hminimal
    -- After a write there is an entry.
    have hpos : 1 ≤ maxEntries := by
      obtain ⟨rest, hroom⟩ := exists_makeRoom maxEntries entries
      have hbounded := (hminimal _ ⟨rest, hroom, rfl⟩).bounded
      rw [AList.keys_insert, List.length_cons] at hbounded
      omega
    refine ⟨hpos, fun hk => ?_⟩
    by_contra hfull
    rw [not_or, Nat.not_lt] at hfull
    -- Some other key can be dropped.
    obtain ⟨k₀, hne, hk₀⟩ := exists_oldest_ne hk hfull.2
    have hkept := (hminimal _ ⟨_, .evict hfull.1 hk₀, rfl⟩).kept (.inl hk) k₀ hne
    rw [AList.lookup_insert_ne hne, AList.lookup_erase] at hkept
    exact absurd hk₀.mem (AList.lookup_eq_none.mp hkept.symm)
  · rintro ⟨hpos, hkey⟩ entries' ⟨rest, hroom, rfl⟩
    have hbound : entries.keys.length ≤ maxEntries := by omega
    cases hroom with
    | room hroom => exact minimal_of_room hroom _
    | empty hfull hnil =>
      rw [hnil, List.length_nil] at hfull
      omega
    | @evict k₀ hfull hk₀ =>
      by_cases hk : k ∈ entries
      · -- The dropped key is the written one, since no other one is as old.
        have honly := (hkey hk).resolve_left (Nat.not_lt.mpr hfull)
        obtain ⟨e, he⟩ := Option.isSome_iff_exists.mp (AList.lookup_isSome.mpr hk)
        obtain ⟨e₀, he₀, hmin⟩ := hk₀
        have heq : k₀ = k := by
          by_contra hne
          exact absurd (hmin k e he) (Nat.not_le.mpr (honly e he k₀ hne e₀ he₀))
        rw [heq]
        exact minimal_of_self hk hbound _
      · exact minimal_of_evicted hk hk₀ hbound hfull _

end Minimal

end Expiring
