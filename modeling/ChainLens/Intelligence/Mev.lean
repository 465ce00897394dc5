import ChainLens.Intelligence.Graph
import ChainLens.Library.Neighbours

/-!
# Sandwich patterns

The detector looks at every transaction of a block that has one before and one after it, and
reports it when these two have one sender and one recipient. It does not look at the sender of the
transaction itself, and two transactions without a recipient have the same one to it.

## Main definitions

* `DetectSandwichPatterns`: the reports of a block
* `IsSandwich`: another sender's transaction between two calls of a contract by one sender

## Main results

* `detectSandwichPatterns_iff`: when the reports are the sandwiches of the block
-/

namespace ChainLens

/-! ## The detector -/

/-- The double with the value that is written `0.6`. -/
def sandwichConfidence : Double := 0x3FE3333333333333

/-- The neighbours are by one sender, and to one recipient or both without one. -/
def SameEnds (w : Neighbours TransactionRow) : Prop :=
  w.prev.fromAddr = w.next.fromAddr ∧ w.prev.toAddr = w.next.toAddr

instance (w : Neighbours TransactionRow) : Decidable (SameEnds w) :=
  inferInstanceAs (Decidable (_ ∧ _))

/-- The report of a transaction. -/
def sandwichEvent (blockNumber : Int) (timestamp : String) (w : Neighbours TransactionRow) :
    Option MevEvent :=
  if SameEnds w then
    some {
      mevType := .possibleSandwich
      severity := "high"
      blockNumber, timestamp
      description := s!"Possible sandwich attack detected: same address ({hexText w.prev.fromAddr})"
        ++ " sent transactions before and after a swap"
      involvedAddresses := [hexText w.prev.fromAddr]
      involvedTransactions := [hexText w.prev.hash, hexText w.curr.hash, hexText w.next.hash]
      confidence := sandwichConfidence }
  else none

/-- The loop over the rows. -/
def sandwichEvents (blockNumber : Int) (timestamp : String) (txs : List TransactionRow) :
    List MevEvent :=
  if txs.length < 3 then []
  else
    (List.range' 1 (txs.length - 2)).filterMap fun i =>
      (Neighbours.around txs i).bind (sandwichEvent blockNumber timestamp)

/-- The rows of a block, `ORDER BY tx_index`. -/
structure InBlockOrder (db : Db) (blockNumber : Int) (txs : List TransactionRow) : Prop where
  perm : txs.Perm (db.transactions.filter fun tx => (tx.blockNumber : Int) = blockNumber)
  sorted : txs.Pairwise fun tx tx' => tx.txIndex ≤ tx'.txIndex

/-- What `detect_sandwich_patterns` may reply, from these rows. The database may fail at any
time. -/
inductive DetectSandwichPatterns (db : Db) (blockNumber : Int) (timestamp : String)
    (txs : List TransactionRow) : Except SqlError (List MevEvent) → Prop where
  | events (h : InBlockOrder db blockNumber txs) :
      DetectSandwichPatterns db blockNumber timestamp txs
        (.ok (sandwichEvents blockNumber timestamp txs))
  | failed : DetectSandwichPatterns db blockNumber timestamp txs (.error .io)

/-! ## Sandwiches -/

section Sandwiches

variable (w : Neighbours TransactionRow)

/-- The neighbours are calls of one contract by one sender, and the transaction is by another. -/
def IsSandwich : Prop :=
  SameEnds w ∧ w.prev.toAddr ≠ none ∧ w.curr.fromAddr ≠ w.prev.fromAddr

instance : Decidable (IsSandwich w) := inferInstanceAs (Decidable (_ ∧ _))

/-- The hashes of the three transactions, in block order. -/
def citation : List String := [hexText w.prev.hash, hexText w.curr.hash, hexText w.next.hash]

end Sandwiches

/-- There is one report for every sandwich, in block order, and it cites its transactions. -/
def ReportsSandwiches (txs : List TransactionRow) (events : List MevEvent) : Prop :=
  events.map (·.involvedTransactions) =
    ((Neighbours.all txs).filter (fun w => IsSandwich w)).map citation

/-- The loop reports the transactions with equal ends. -/
theorem citations_sandwichEvents (blockNumber : Int) (timestamp : String)
    (txs : List TransactionRow) :
    (sandwichEvents blockNumber timestamp txs).map (·.involvedTransactions) =
      ((Neighbours.all txs).filter (fun w => SameEnds w)).map citation := by
  have hloop : sandwichEvents blockNumber timestamp txs =
      (Neighbours.all txs).filterMap (sandwichEvent blockNumber timestamp) := by
    rw [← Neighbours.filterMap_around, sandwichEvents]
    split
    next hshort =>
      -- The guard only leaves out an empty loop.
      have : txs.length - 2 = 0 := by omega
      rw [this]
      rfl
    next => rfl
  rw [hloop, List.map_filterMap, ← List.filterMap_eq_map', ← List.filterMap_eq_filter,
    List.filterMap_filterMap]
  refine List.filterMap_congr fun w _ => ?_
  by_cases h : SameEnds w
  · simp [sandwichEvent, Option.guard, h, citation]
  · simp [sandwichEvent, Option.guard, h]

/-- **When the reports of a block are its sandwiches**: no three transactions in a row begin and end
with the same sender and recipient while the recipient is missing or the sender is the same
throughout. -/
theorem detectSandwichPatterns_iff {db : Db} {blockNumber : Int} {timestamp : String}
    {txs : List TransactionRow} {events : List MevEvent}
    (h : DetectSandwichPatterns db blockNumber timestamp txs (.ok events)) :
    ReportsSandwiches txs events ↔ ∀ w ∈ Neighbours.all txs,
      ¬ (SameEnds w ∧ (w.prev.toAddr = none ∨ w.curr.fromAddr = w.prev.fromAddr)) := by
  cases h with
  | events =>
    rw [ReportsSandwiches, citations_sandwichEvents,
      Neighbours.map_filter_eq_iff (fun w _ hw => hw.1)]
    refine forall₂_congr fun w _ => ?_
    rw [IsSandwich, not_and, not_or]
    exact ⟨fun hw hends => (hw hends).2, fun hw hends => ⟨hends, hw hends⟩⟩

/-! ## Three calls of a contract -/

namespace Calls

/-- Calls of one contract by these senders, in block order. -/
def txs (senders : List UInt8) : List TransactionRow :=
  senders.zipIdx.map fun (sender, i) =>
    { Links.transactionRow i (List.replicate 20 sender) (List.replicate 20 9) with
      hash := List.replicate 32 (UInt8.ofNat i) }

def db (senders : List UInt8) : Db :=
  { Db.migrated with
    blocks := [Links.blockRow]
    transactions := txs senders }

/-- A call between two calls by another sender is reported. -/
theorem sandwich_reported :
    ReportsSandwiches (txs [1, 2, 1]) (sandwichEvents 7 "2024-01-01" (txs [1, 2, 1])) := by
  have horder : InBlockOrder (db [1, 2, 1]) 7 (txs [1, 2, 1]) :=
    ⟨.of_eq (by decide), by decide⟩
  exact (detectSandwichPatterns_iff (.events horder)).mpr (by decide)

/-- So is the second one of three calls by one sender. -/
theorem burst_reported :
    DetectSandwichPatterns (db [1, 1, 1]) 7 "2024-01-01" (txs [1, 1, 1])
        (.ok (sandwichEvents 7 "2024-01-01" (txs [1, 1, 1]))) ∧
      ¬ ReportsSandwiches (txs [1, 1, 1]) (sandwichEvents 7 "2024-01-01" (txs [1, 1, 1])) := by
  refine ⟨.events ⟨.of_eq (by decide), by decide⟩, ?_⟩
  rw [ReportsSandwiches, citations_sandwichEvents]
  intro h
  -- There is one report, and no sandwich.
  have hlength := congrArg List.length h
  simp only [List.length_map] at hlength
  exact absurd hlength (by decide)

end Calls

end ChainLens
