import ChainLens.Api.Handlers
import ChainLens.Indexer.Surviving

/-!
# The history of an address while the service runs

A client follows the pages of an address, and between two replies the service goes on: blocks are
stored and rolled back, the process is stopped and started, other requests come and go. Every page
is one of the rows of its moment. The index of addresses only grows at its end, so the pages still
come in order and repeat no row; rows of one height and index may come in either order.

## Main definitions

* `Service.Browse`: the pages of a client, with runs of the service between them

## Main results

* `Service.history_of_browse`: what the client obtains, and what it can miss
-/

namespace ChainLens

open Transition Api AddressTransactionResponse

namespace Service

/-- The pages a client obtains that asks for the next one below the last row it received, and again
for the same one when the request is refused. The service runs before every reply. -/
inductive Browse (cfg : Config) (setup : Setup) (analyses : Analyses) (address : String)
    (limit : Int) : State → Option Int → List (List AddressTransactionResponse) → State → Prop where
  | stop (s : State) (before : Option Int) : Browse cfg setup analyses address limit s before [] s
  | refused {s t u : State} {moves : List (Move State Event)} {before : Option Int}
      {error : HandlerError} {pages : List (List AddressTransactionResponse)}
      (hrun : Run (Step cfg setup analyses) s moves t)
      (hreply : GetAddressTransactions t.indexer.db address ⟨some limit, before⟩ (.error error))
      (hrest : Browse cfg setup analyses address limit t before pages u) :
      Browse cfg setup analyses address limit s before pages u
  | finish {s t : State} {moves : List (Move State Event)} {before : Option Int}
      (hrun : Run (Step cfg setup analyses) s moves t)
      (hreply : GetAddressTransactions t.indexer.db address ⟨some limit, before⟩ (.ok [])) :
      Browse cfg setup analyses address limit s before [[]] t
  | next {s t u : State} {moves : List (Move State Event)} {before : Option Int}
      {page : List AddressTransactionResponse} {last : AddressTransactionResponse}
      {pages : List (List AddressTransactionResponse)}
      (hrun : Run (Step cfg setup analyses) s moves t)
      (hreply : GetAddressTransactions t.indexer.db address ⟨some limit, before⟩ (.ok page))
      (hlast : page.getLast? = some last)
      (hrest : Browse cfg setup analyses address limit t (some last.blockNumber) pages u) :
      Browse cfg setup analyses address limit s before (page :: pages) u

section History

variable {cfg : Config} {setup : Setup} {analyses : Analyses} {s t u : State}
  {moves : List (Move State Event)} {address : String} {bytes : Bytes} {limit : Int}
  {before : Option Int} {pages : List (List AddressTransactionResponse)}

/-- Over a run the history of an address keeps its rows. -/
theorem addressHistory_run (hrun : Run (Step cfg setup analyses) s moves t) (hs : Sound s)
    (bytes : Bytes) : Sound t ∧
      (addressHistory s.indexer.db bytes).Sublist (addressHistory t.indexer.db bytes) := by
  let inv (t : State) : Prop := Sound t ∧
    s.indexer.db.addressTransactions <+: t.indexer.db.addressTransactions
  have hkeep : ∀ t e u, Step cfg setup analyses t e u → True → inv t → inv u := by
    rintro t e u hstep - ⟨ht, hprefix⟩
    exact ⟨sound_step hstep ht, hprefix.trans (appendOnly_step hstep ht).1⟩
  have hstart : inv s := ⟨hs, List.prefix_rfl⟩
  have hend : inv t := hrun.invariant hkeep (fun _ _ => trivial) hstart
  exact ⟨hend.1, (hend.2.sublist.filter _).map _⟩

/-- **The client's pages are a stream** of histories, each of which lies between the first and the
last. -/
theorem Browse.stream (haddress : fromHex address = some bytes) (hlow : 1 ≤ limit)
    (hhigh : limit ≤ 500) (hs : Sound s)
    (h : Browse cfg setup analyses address limit s before pages u) :
    Sound u ∧
      (addressHistory s.indexer.db bytes).Sublist (addressHistory u.indexer.db bytes) ∧
      ∃ replies, Paging.Stream height Precedes limit.toNat (before.getD i64Max) replies ∧
        Paging.pages replies = pages ∧
        ∀ reply ∈ replies, (addressHistory s.indexer.db bytes).Sublist reply.1 ∧
          reply.1.Sublist (addressHistory u.indexer.db bytes) := by
  have hpage := fun db before page =>
    @getAddressTransactions_iff db address bytes limit haddress hlow hhigh before page
  induction h with
  | stop s before =>
    exact ⟨hs, List.Sublist.refl _, [], .nil _, rfl, fun _ h => absurd h List.not_mem_nil⟩
  | refused hrun _ _ ih =>
    -- A refused request leaves nothing with the client.
    obtain ⟨ht, hgrow⟩ := addressHistory_run hrun hs bytes
    obtain ⟨hu, hend, replies, hstream, hpages, hbetween⟩ := ih ht
    refine ⟨hu, hgrow.trans hend, replies, hstream, hpages, fun reply hreply => ?_⟩
    exact ⟨hgrow.trans (hbetween reply hreply).1, (hbetween reply hreply).2⟩
  | @finish s t moves before hrun hreply =>
    obtain ⟨ht, hgrow⟩ := addressHistory_run hrun hs bytes
    refine ⟨ht, hgrow, [(addressHistory t.indexer.db bytes, [])],
      .finish ((hpage _ _ _).mp hreply), rfl, fun reply hmem => ?_⟩
    obtain rfl := List.mem_singleton.mp hmem
    exact ⟨hgrow, List.Sublist.refl _⟩
  | @next s t u moves before page last pages hrun hreply hlast _ ih =>
    obtain ⟨ht, hgrow⟩ := addressHistory_run hrun hs bytes
    obtain ⟨hu, hend, replies, hstream, rfl, hbetween⟩ := ih ht
    refine ⟨hu, hgrow.trans hend, (addressHistory t.indexer.db bytes, page) :: replies,
      .next ((hpage _ _ _).mp hreply) hlast hstream, rfl, fun reply hmem => ?_⟩
    -- The reply is of the history of its moment, and later ones only grow.
    rcases List.mem_cons.mp hmem with rfl | hmem
    · exact ⟨hgrow, hend⟩
    · exact ⟨hgrow.trans (hbetween reply hmem).1, (hbetween reply hmem).2⟩

/-- **What a client obtains while the service runs**, with a limit that the API allows: the rows
come in an order that never goes up in height and index (the two rows of a transfer to oneself are
level), they are rows of the index with no row too often, and the client is done after at most one
page more than there are rows. It then has every row below the greatest height that was there
before its first request, unless a full page ended at the height of that row. -/
theorem history_of_browse (haddress : fromHex address = some bytes) (hlow : 1 ≤ limit)
    (hhigh : limit ≤ 500) (hs : Sound s)
    (h : Browse cfg setup analyses address limit s none pages u) :
    pages.flatten.Pairwise Precedes ∧
      pages.flatten.Subperm (addressHistory u.indexer.db bytes) ∧
      pages.length ≤ (addressHistory u.indexer.db bytes).length + 1 ∧
      ([] ∈ pages → ∀ row ∈ addressHistory s.indexer.db bytes, row.height < i64Max →
        row ∈ pages.flatten ∨ ∃ page ∈ pages, page.length = limit.toNat ∧
          ∃ last ∈ page.getLast?, last.blockNumber = row.blockNumber) := by
  obtain ⟨-, -, replies, hstream, rfl, hbetween⟩ := h.stream haddress hlow hhigh hs
  -- No page has a row again that an earlier page had.
  have hsubperm := hstream.subperm precedes_descending fun reply hreply =>
    (hbetween reply hreply).2
  have hpart := hsubperm.trans List.filter_sublist.subperm
  refine ⟨hstream.pairwise precedes_descending, hpart, ?_, fun hcomplete row hrow hheight => ?_⟩
  · have hlength := hstream.length_le
    have hle := hpart.length_le
    rw [Paging.pages, List.length_map] at *
    omega
  · have hkept := hstream.mem_or_cut precedes_descending (by omega) hcomplete
      (fun reply hreply => (hbetween reply hreply).1.subset hrow) hheight
    refine hkept.imp_right fun ⟨page, hpage, hfull, last, hlast, hsame⟩ => ?_
    exact ⟨page, hpage, hfull, last, hlast, Int.ofNat_inj.mp hsame⟩

/-- A store with two rows of one address, at heights of their own. -/
def apartRows : Db :=
  { Db.migrated with addressTransactions := [⟨[1], 5, 0, [10], 0⟩, ⟨[1], 7, 0, [11], 0⟩] }

theorem sound_apartRows (process : Indexer.Process) : Sound ⟨⟨apartRows, process⟩, []⟩ := by
  refine ⟨?_, nofun⟩
  constructor <;> simp [apartRows, Db.migrated, i64Max]

/-- The process is started before the first reply, and stopped before the second. -/
theorem history_restarted :
    [[⟨toHex [11], 7, 0, 0⟩, ⟨toHex [10], 5, 0, 0⟩],
        ([] : List AddressTransactionResponse)].flatten.Pairwise Precedes ∧
      ∀ row ∈ addressHistory apartRows [1],
        row ∈ [[⟨toHex [11], 7, 0, 0⟩, ⟨toHex [10], 5, 0, 0⟩],
          ([] : List AddressTransactionResponse)].flatten := by
  have hrows : addressHistory apartRows [1] =
      [⟨toHex [10], 5, 0, 0⟩, ⟨toHex [11], 7, 0, 0⟩] := by
    simp [addressHistory, apartRows, addressTransactionResponse]
  have haddress : fromHex (toHex [1]) = some [1] := hexDecode_hexEncode [1]
  have hfirst : Paging.IsPage height Precedes (addressHistory apartRows [1]) 5 i64Max
      [⟨toHex [11], 7, 0, 0⟩, ⟨toHex [10], 5, 0, 0⟩] :=
    ⟨[⟨toHex [11], 7, 0, 0⟩, ⟨toHex [10], 5, 0, 0⟩], hrows ▸ List.Perm.swap _ _ [],
      by simp [Precedes], rfl⟩
  have hsecond : Paging.IsPage height Precedes (addressHistory apartRows [1]) 5 (5 : ℕ) [] := by
    refine ⟨[], ?_, .nil, rfl⟩
    rw [hrows]
    exact List.Perm.refl []
  have hstart : Run (Indexer.Step (Indexer.smallConfig 0 3)) ⟨apartRows, .stopped⟩
      [⟨⟨apartRows, .stopped⟩, .start, ⟨apartRows, .polling 0⟩⟩] ⟨apartRows, .polling 0⟩ :=
    .cons rfl (.nil _)
  have hstop : Run (Indexer.Step (Indexer.smallConfig 0 3)) ⟨apartRows, .polling 0⟩
      [⟨⟨apartRows, .polling 0⟩, .stop, ⟨apartRows, .stopped⟩⟩] ⟨apartRows, .stopped⟩ :=
    .cons rfl (.nil _)
  have hreply := fun before page =>
    @getAddressTransactions_iff apartRows (toHex [1]) [1] 5 haddress (by omega) (by omega) before
      page
  -- Neither move changes the index, so that both replies are pages of one history.
  have hbrowse : Browse (Indexer.smallConfig 0 3) Reprocess.plainSetup plainAnalyses (toHex [1]) 5
      ⟨⟨apartRows, .stopped⟩, []⟩ none
      [[⟨toHex [11], 7, 0, 0⟩, ⟨toHex [10], 5, 0, 0⟩], []] ⟨⟨apartRows, .stopped⟩, []⟩ :=
    .next (run_main hstart) ((hreply none _).mpr hfirst) rfl
      (.finish (run_main hstop) ((hreply (some (5 : ℕ)) _).mpr hsecond))
  obtain ⟨hordered, -, -, hall⟩ :=
    history_of_browse haddress (by omega) (by omega) (sound_apartRows _) hbrowse
  refine ⟨hordered, fun row hrow => ?_⟩
  have hheight : row.height < i64Max := by
    rw [hrows] at hrow
    rcases List.mem_pair.mp hrow with rfl | rfl <;> decide
  rcases hall (by simp) row hrow hheight with hmem | ⟨page, hpage, hfull, -⟩
  · exact hmem
  · -- No page has five rows.
    rcases List.mem_pair.mp hpage with rfl | rfl <;> cases hfull

end History

end Service

end ChainLens
