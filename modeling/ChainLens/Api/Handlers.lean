import ChainLens.Domain.Text
import ChainLens.Library.Paging
import ChainLens.Store.Schema

/-!
# The handlers of the API

The history of an address is served in pages. A page ends anywhere, and the next one begins below
the height of its last row, so the other rows of that height are passed over.

## Main definitions

* `Api.GetAddressTransactions`: what the handler may reply
* `Api.Client`: the replies to a client that follows the pages

## Main results

* `getAddressTransactions_enumerates_iff`: when a client obtains every row once
-/

namespace ChainLens

namespace Api

def toHex (bytes : Bytes) : String := hexEncode bytes

def fromHex (text : String) : Option Bytes := hexDecode text.toList

/-- The errors of a handler, by their status code. -/
inductive HandlerError where
  | badRequest
  | internalServerError

structure AddressQuery where
  limit : Option Int
  beforeBlock : Option Int

structure AddressTransactionResponse where
  txHash : String
  blockNumber : ℕ
  txIndex : ℕ
  direction : ℕ
deriving DecidableEq

def addressTransactionResponse (row : AddressTransactionRow) : AddressTransactionResponse where
  txHash := toHex row.txHash
  blockNumber := row.blockNumber
  txIndex := row.txIndex
  direction := row.direction

/-- The rows of an address, as they are served. -/
def addressHistory (db : Db) (address : Bytes) : List AddressTransactionResponse :=
  (db.addressTransactions.filter (·.address = address)).map addressTransactionResponse

namespace AddressTransactionResponse

/-- The height, in the type of the query parameter. -/
def height (row : AddressTransactionResponse) : Int := row.blockNumber

/-- `ORDER BY block_number DESC, tx_index DESC`. -/
def Precedes (row row' : AddressTransactionResponse) : Prop :=
  row'.blockNumber < row.blockNumber ∨
    row'.blockNumber = row.blockNumber ∧ row'.txIndex ≤ row.txIndex

theorem precedes_descending : Paging.Descending height Precedes where
  total row row' := by
    unfold Precedes
    omega
  trans row row' row'' h h' := by
    unfold Precedes at *
    omega
  key_le row row' h := by
    unfold Precedes at h
    unfold height
    omega

end AddressTransactionResponse

open AddressTransactionResponse

/-- The number of rows asked of the database. -/
def pageLimit (query : AddressQuery) : Int := min (query.limit.getD 50) 500

/-- What the handler reads of a row. -/
def addressTransactionColumns : List Sql.Column := [
  ⟨"tx_hash", .bytea, .bytes⟩,
  ⟨"block_number", .bigint, .i64⟩,
  ⟨"tx_index", .integer, .i32⟩,
  ⟨"direction", .smallint, .i16⟩]

/-- What `get_address_transactions` may reply. Rows of one height and index come in any order, and
the database may fail at any time. -/
inductive GetAddressTransactions (db : Db) (address : String) (query : AddressQuery) :
    Except HandlerError (List AddressTransactionResponse) → Prop where
  | invalidHex (h : fromHex address = none) :
      GetAddressTransactions db address query (.error .badRequest)
  | page {bytes : Bytes} {page : List AddressTransactionResponse}
      (h : fromHex address = some bytes) (hlimit : 0 ≤ pageLimit query)
      (hcolumns : Sql.unreadableAt addressTransactionColumns = none)
      (hpage : Paging.IsPage height Precedes (addressHistory db bytes) (pageLimit query).toNat
        (query.beforeBlock.getD i64Max) page) : GetAddressTransactions db address query (.ok page)
  -- A negative limit is an error of the statement as well.
  | failed {bytes : Bytes} (h : fromHex address = some bytes) :
      GetAddressTransactions db address query (.error .internalServerError)

/-- The pages a client obtains that asks for the next one below the last row it received, until it
receives none. -/
inductive Client (db : Db) (address : String) (limit : Int) :
    Option Int → List (List AddressTransactionResponse) → Prop where
  | nil (before : Option Int) : Client db address limit before []
  | finish {before : Option Int}
      (hreply : GetAddressTransactions db address ⟨some limit, before⟩ (.ok [])) :
      Client db address limit before [[]]
  | next {before : Option Int} {page : List AddressTransactionResponse}
      {last : AddressTransactionResponse} {pages : List (List AddressTransactionResponse)}
      (hreply : GetAddressTransactions db address ⟨some limit, before⟩ (.ok page))
      (hlast : page.getLast? = some last)
      (hrest : Client db address limit (some last.blockNumber) pages) :
      Client db address limit before (page :: pages)

section Pages

variable {db : Db} {address : String} {bytes : Bytes} {limit : Int}

theorem getAddressTransactions_iff (haddress : fromHex address = some bytes) (hlow : 1 ≤ limit)
    (hhigh : limit ≤ 500) (before : Option Int) (page : List AddressTransactionResponse) :
    GetAddressTransactions db address ⟨some limit, before⟩ (.ok page) ↔
      Paging.IsPage height Precedes (addressHistory db bytes) limit.toNat (before.getD i64Max)
        page := by
  have hlimit : pageLimit ⟨some limit, before⟩ = limit := min_eq_left hhigh
  constructor
  · intro hreply
    cases hreply with
    | page h _ _ hpage =>
      obtain rfl := Option.some.inj (h.symm.trans haddress)
      rwa [hlimit] at hpage
  · intro hpage
    refine .page haddress ?_ rfl ?_
    · rw [hlimit]
      omega
    · rwa [hlimit]

/-- **The client's pages are a run** through the history of the address. -/
theorem client_iff_run (haddress : fromHex address = some bytes) (hlow : 1 ≤ limit)
    (hhigh : limit ≤ 500) (before : Option Int)
    (pages : List (List AddressTransactionResponse)) :
    Client db address limit before pages ↔
      Paging.Run height Precedes (addressHistory db bytes) limit.toNat (before.getD i64Max)
        pages := by
  have hreply := fun before page =>
    @getAddressTransactions_iff db address bytes limit haddress hlow hhigh before page
  constructor
  · intro hclient
    induction hclient with
    | nil => exact .nil _
    | finish h => exact .finish ((hreply _ _).mp h)
    | next h hlast _ ih => exact .next ((hreply _ _).mp h) hlast ih
  · intro hrun
    generalize hbound : before.getD (i64Max : Int) = bound at hrun
    induction hrun generalizing before with
    | nil => exact .nil _
    | finish hpage => exact .finish ((hreply _ _).mpr (hbound ▸ hpage))
    | next hpage hlast _ ih =>
      exact .next ((hreply _ _).mpr (hbound ▸ hpage)) hlast (ih (some _) rfl)

end Pages

/-- Whatever order the database chooses inside a height, the client comes to an empty page, and has
then obtained the history once, in order. -/
structure Enumerates (db : Db) (address : String) (bytes : Bytes) (limit : Int) : Prop where
  ends : ∃ n, ∀ pages, Client db address limit none pages → pages.length ≤ n
  complete : ∀ pages, Client db address limit none pages → [] ∈ pages →
    pages.flatten.Perm (addressHistory db bytes) ∧ pages.flatten.Pairwise Precedes

/-- **When a client obtains every row once, in descending order**: no row stands at the greatest
height, and no page ends inside a height. -/
theorem getAddressTransactions_enumerates_iff (db : Db) {address : String} {bytes : Bytes}
    {limit : Int} (haddress : fromHex address = some bytes) (hlow : 1 ≤ limit)
    (hhigh : limit ≤ 500) :
    Enumerates db address bytes limit ↔
      (∀ row ∈ addressHistory db bytes, row.height < i64Max) ∧
        Paging.Apart limit.toNat (Paging.keys height (addressHistory db bytes)) := by
  have hclient := fun pages => @client_iff_run db address bytes limit haddress hlow hhigh none pages
  have hruns := precedes_descending.run_perm_iff (show 0 < limit.toNat by omega)
    (addressHistory db bytes) (i64Max : Int)
  rw [← hruns]
  constructor
  · intro henumerates pages hrun
    exact henumerates.complete pages ((hclient pages).mpr hrun)
  · intro hall
    refine ⟨⟨_, fun pages h => ((hclient pages).mp h).length_le precedes_descending⟩, ?_⟩
    exact fun pages h => hall pages ((hclient pages).mp h)

/-- A store with two rows of one address at height 5. -/
def twoRows : Db :=
  { Db.migrated with
    addressTransactions := [⟨[1], 5, 0, [10], 0⟩, ⟨[1], 5, 1, [11], 0⟩] }

/-- With a limit of 2 both rows stand on one page, with a limit of 1 they do not. -/
theorem twoRows_enumerates_iff :
    Enumerates twoRows (toHex [1]) [1] 2 ↔
      (∀ row ∈ addressHistory twoRows [1], row.height < i64Max) ∧
        Paging.Apart 2 (Paging.keys height (addressHistory twoRows [1])) :=
  getAddressTransactions_enumerates_iff twoRows (hexDecode_hexEncode [1]) (by omega) (by omega)

/-- With a limit of 1 the client obtains the later row, and then an empty page. -/
theorem getAddressTransactions_skips :
    Client twoRows (toHex [1]) 1 none [[⟨toHex [11], 5, 1, 0⟩], []] ∧
      ¬ Enumerates twoRows (toHex [1]) [1] 1 := by
  have hrows : addressHistory twoRows [1] =
      [⟨toHex [10], 5, 0, 0⟩, ⟨toHex [11], 5, 1, 0⟩] := by
    simp [addressHistory, twoRows, addressTransactionResponse]
  have hfirst : Paging.IsPage height Precedes (addressHistory twoRows [1]) 1 i64Max
      [⟨toHex [11], 5, 1, 0⟩] :=
    ⟨[⟨toHex [11], 5, 1, 0⟩, ⟨toHex [10], 5, 0, 0⟩], hrows ▸ List.Perm.swap _ _ [],
      by simp [Precedes], by simp⟩
  have hsecond : Paging.IsPage height Precedes (addressHistory twoRows [1]) 1 5 [] :=
    ⟨[], List.Perm.refl [], List.Pairwise.nil, rfl⟩
  have hclient : Client twoRows (toHex [1]) 1 none [[⟨toHex [11], 5, 1, 0⟩], []] :=
    (client_iff_run (hexDecode_hexEncode [1]) (by omega) (by omega) none _).mpr
      (.next hfirst rfl (.finish hsecond))
  refine ⟨hclient, ?_⟩
  intro henumerates
  obtain ⟨hperm, -⟩ := henumerates.complete _ hclient (by simp)
  have hlength : 1 = 2 := hperm.length_eq
  omega

end Api

end ChainLens
