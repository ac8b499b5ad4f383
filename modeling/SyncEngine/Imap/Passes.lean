import SyncEngine.Imap.Chunking

/-!
# A pass as it changes a store

Which way a pass goes is decided by the cursor it goes on from.  What it leaves does not depend on the
numbers of messages in a command and in a chunk, where no message of a fresh backfill's last group is
one the engine's own date test would turn away, and no range of a resync ends beyond 32 bits.
-/

namespace SyncEngine
namespace Imap

open Mail

variable {δ : Type} {server : Server δ} {on : Binding}

/-! ## The bound on a cursor -/

theorem parseUnsigned_lt {bits : Nat} {text : List Char} {n : Nat}
    (h : parseUnsigned bits text = some n) : n < 2 ^ bits := by
  unfold parseUnsigned at h
  dsimp only at h
  split at h
  · simp at h
  · split at h
    · rename_i hlt
      rw [← Option.some.inj h]
      exact hlt
    · simp at h

variable {p : MailboxCursor}

theorem MailboxCursor.uidNext_lt {state : SyncState} (h : MailboxCursor.decode state = some p) : p.uidNext < 2 ^ 32 := by
  unfold decode at h
  simp only [Option.bind_eq_bind, Option.bind_eq_some_iff, Option.pure_def, Option.some.injEq] at h
  obtain ⟨rest, -, split, -, low, -, modseq, -, version, -, validity, -, next, hnext, rfl⟩ := h
  exact parseUnsigned_lt hnext

/-! ## The whole pass -/

def priorCursor (window : SyncWindow) (cell : ScopeCell (Content δ)) : Option MailboxCursor :=
  (window.resume cell.state).bind MailboxCursor.current

theorem priorCursor_lt {window : SyncWindow} {cell : ScopeCell (Content δ)}
    (h : priorCursor window cell = some p) : p.uidNext < 2 ^ 32 := by
  obtain ⟨cursor, -, hcurrent⟩ := Option.bind_eq_some_iff.mp h
  exact MailboxCursor.uidNext_lt (Option.filter_eq_some_iff.mp hcurrent).1

variable (session : Negotiated)

theorem withinMessageLimit_idem (n : Nat) :
    session.withinMessageLimit (session.withinMessageLimit n) = session.withinMessageLimit n := by
  unfold Negotiated.withinMessageLimit
  cases session.messageLimit with
  | none => rfl
  | some limit =>
    dsimp only
    by_cases h : 0 < limit ∧ (n = 0 ∨ limit < n)
    · simp only [if_pos h, ite_self]
    · simp only [if_neg h]

theorem withinMessageLimit_one : session.withinMessageLimit 1 = 1 := by
  unfold Negotiated.withinMessageLimit
  cases session.messageLimit with
  | none => rfl
  | some limit =>
    dsimp only
    rw [if_neg (by omega)]

section Pass

variable [MailContent δ] (kind : StoreKind) (window : SyncWindow) (cell : ScopeCell (Content δ))
  (fetchBatch chunkSize : Nat)

def passed (server : Server δ) (on : Binding) : ScopeCell (Content δ) :=
  streamed kind window cell
    (server.sends (streamEmail on (window.resume cell.state) window fetchBatch chunkSize))

theorem passed_eq : passed kind window cell fetchBatch chunkSize server on =
      match backfillFrom (priorCursor window cell) server.uidValidity (server.next on) with
      | some high => filled kind window cell high (on.session.withinMessageLimit fetchBatch) chunkSize
          server on (priorCursor window cell)
      | none => paged kind window cell (priorCursor window cell)
          (on.session.withinMessageLimit fetchBatch) chunkSize server on := by
  have hsends : server.sends (streamEmail on (window.resume cell.state) window fetchBatch chunkSize) =
      match backfillFrom (priorCursor window cell) server.uidValidity (server.next on) with
      | some high => server.sends (backfill on (server.selected on) (server.next on)
          (priorCursor window cell) window.since high (on.session.withinMessageLimit fetchBatch)
          chunkSize)
      | none => server.sends (streamPages on (server.selected on) (server.next on)
          (priorCursor window cell) window.since (on.session.withinMessageLimit fetchBatch)
          chunkSize) := by
    unfold streamEmail
    rw [Server.sends_bind, Server.sends_bind, Server.sends_effectiveUidNext, List.nil_append]
    show [] ++ server.sends (match backfillFrom (priorCursor window cell) server.uidValidity
      (server.next on) with | some high => _ | none => _) = _
    rw [List.nil_append]
    cases backfillFrom (priorCursor window cell) server.uidValidity (server.next on) with
    | none => rfl
    | some high => rfl
  unfold passed
  rw [hsends]
  cases backfillFrom (priorCursor window cell) server.uidValidity (server.next on) with
  | none => rfl
  | some high => rfl

end Pass

/-! ## Two chunkings -/

/-- The same objects, rows, keywords and memberships under every key, and the same cursor. -/
def SameStored (a b : ScopeCell (Content δ)) : Prop := (∀ k, a.told k = b.told k) ∧ a.state = b.state

def resyncsWhole (server : Server δ) (on : Binding) (window : SyncWindow) (p : MailboxCursor) : Prop :=
  p.uidValidity = server.uidValidity ∧ p.backfillLow = none ∧ on.session.qresync = false ∧
    unchanged on.session p (server.next on) (server.selected on).highestModseq = false ∧
    window.since = none

/-- What a fresh backfill leaves to its last chunk is admitted by the engine's date test, or stored
as it is sent already; and what a range of a resync does not reach is held, and nothing is stored of
it. -/
structure ChunkingSafe (server : Server δ) (on : Binding) (window : SyncWindow)
    (cell : ScopeCell (Content δ)) : Prop where
  fresh : priorCursor window cell = none → ∀ fetchBatch,
    ∀ m ∈ lastGroup server window.since (server.next on - 1) (on.session.withinMessageLimit fetchBatch),
      window.admits (server.stored on m).date = true ∨
        cell.told (server.stored on m).key = Told.asSent [server.stored on m] false
  resync : ∀ p, priorCursor window cell = some p → resyncsWhole server on window p → ∀ fetchBatch,
    ∀ m ∈ server.messages,
      resyncNames none p.uidNext (on.session.withinMessageLimit fetchBatch) m = true ∨
        (m.uid < p.uidNext ∧ (cell.told (server.stored on m).key).object = none ∧
          (cell.told (server.stored on m).key).change (projectStateChange (server.flagged on m)) =
            cell.told (server.stored on m).key)

section Chunking

variable {fetchBatch : Nat} {m : ServerMessage δ}

theorem mem_lastGroup {since : Option CalendarDate} {high : Nat} (h : m ∈ lastGroup server since high fetchBatch) :
    m ∈ server.messages ∧ (decide (m.uid ≤ high) && inWindow since m) = true := by
  rw [← mem_groupMessages server since high fetchBatch]
  unfold lastGroup at h
  cases hlast : (backfillSets server since high fetchBatch).getLast? with
  | none =>
    rw [hlast] at h
    exact absurd h List.not_mem_nil
  | some group =>
    rw [hlast] at h
    exact List.mem_flatMap.mpr ⟨group, List.mem_of_getLast? hlast, h⟩

theorem resyncNames_one (p : MailboxCursor) (m : ServerMessage δ) : resyncNames none p.uidNext 1 m = true := by
  simp [resyncNames, reached, Nat.mod_one]

variable {kind : StoreKind} {window : SyncWindow} {cell : ScopeCell (Content δ)}

theorem freshLeaves_eq (hsafe : ChunkingSafe server on window cell)
    (hprior : priorCursor window cell = none) {keys : List ProviderKey}
    (hkeys : ∀ k ∈ keys, ∃ m ∈ lastGroup server window.since (server.next on - 1)
      (on.session.withinMessageLimit fetchBatch), (server.stored on m).key = k) (k : ProviderKey) :
    freshLeaves server on window (server.next on - 1) (· ∈ keys) (cell.told k) k =
      freshLeaves server on window (server.next on - 1) (fun _ => False) (cell.told k) k := by
  unfold freshLeaves
  cases hfind : (server.find on k).filter fun m => decide (m.uid ≤ server.next on - 1) && inWindow window.since m with
  | none => rfl
  | some m =>
    dsimp only
    obtain ⟨hm, hkey⟩ := Server.find_eq_some.mp (Option.filter_eq_some_iff.mp hfind).1
    by_cases hadmits : window.admits (server.stored on m).date = true
    · rw [if_pos (.inl hadmits), if_pos (.inl hadmits)]
    · rw [if_neg (by simp [hadmits] : ¬(window.admits (server.stored on m).date = true ∨ False))]
      by_cases hlast : k ∈ keys
      · rw [if_pos (.inr hlast)]
        obtain ⟨m', hm', hkey'⟩ := hkeys k hlast
        have hsame : m' = m := Server.uid_injective (mem_lastGroup hm').1 hm (Server.uid_of_key (hkey'.trans hkey.symm))
        subst hsame
        have hstored := (hsafe.fresh hprior fetchBatch m' hm').resolve_left hadmits
        rw [hkey] at hstored
        exact hstored.symm
      · rw [if_neg (by simp [hadmits, hlast])]

variable {p : MailboxCursor}

theorem pageLeaves_eq (hsafe : ChunkingSafe server on window cell) (hprior : priorCursor window cell = some p)
    (hpages : backfillFrom (some p) server.uidValidity (server.next on) = none) (fetchBatch : Nat)
    (k : ProviderKey) :
    pageLeaves server on (some p) window (on.session.withinMessageLimit fetchBatch) (cell.told k) k =
      pageLeaves server on (some p) window 1 (cell.told k) k := by
  unfold pageLeaves
  dsimp only
  by_cases hreset : p.uidValidity ≠ server.uidValidity
  · rw [if_pos hreset, if_pos hreset]
  rw [if_neg hreset, if_neg hreset]
  by_cases hqresync : on.session.qresync = true
  · rw [if_pos hqresync, if_pos hqresync]
  rw [if_neg hqresync, if_neg hqresync]
  by_cases hunchanged : unchanged on.session p (server.next on) (server.selected on).highestModseq = true
  · rw [if_pos hunchanged, if_pos hunchanged]
  rw [if_neg hunchanged, if_neg hunchanged]
  cases hsince : window.since with
  | some floor => rfl
  | none =>
    have hlow : p.backfillLow = none := by
      unfold backfillFrom at hpages
      simpa [not_not.mp hreset] using hpages
    have hwhole : resyncsWhole server on window p :=
      ⟨not_not.mp hreset, hlow, by simpa using hqresync, by simpa using hunchanged, hsince⟩
    unfold resyncLeaves
    cases hfind : server.find on k with
    | none => rfl
    | some m =>
      obtain ⟨hm, rfl⟩ := Server.find_eq_some.mp hfind
      have hone : (some m).filter (resyncNames none p.uidNext 1) = some m := by simp [Option.filter, resyncNames_one]
      rw [hone]
      by_cases hnamed : resyncNames none p.uidNext (on.session.withinMessageLimit fetchBatch) m = true
      · have hthere : (some m).filter (resyncNames none p.uidNext
            (on.session.withinMessageLimit fetchBatch)) = some m := by
          simp [Option.filter, hnamed]
        rw [hthere]
      · obtain ⟨hheld, hnone, hsame⟩ := (hsafe.resync p hprior hwhole fetchBatch m hm).resolve_left hnamed
        have hmissed : (some m).filter (resyncNames none p.uidNext
            (on.session.withinMessageLimit fetchBatch)) = none := by
          simp [Option.filter, hnamed]
        rw [hmissed]
        dsimp only
        rw [hnone, if_neg (by simp), if_neg (by omega), hsame]

variable [MailContent δ]

theorem passed_leaves (hsafe : ChunkingSafe server on window cell) :
    ∃ leaves : ProviderKey → Told (Content δ), ∃ state, (∀ fetchBatch chunkSize,
      (∀ k, (passed kind window cell fetchBatch chunkSize server on).told k = leaves k) ∧
      (passed kind window cell fetchBatch chunkSize server on).state = state) := by
  cases hprior : priorCursor window cell with
  | none =>
    refine ⟨fun k => freshLeaves server on window (server.next on - 1) (fun _ => False) (cell.told k) k,
      some (window.stamp (backfillFrontier none (server.selected on) (server.next on)).encode),
      fun fetchBatch chunkSize => ?_⟩
    obtain ⟨keys, htold, hstate, hkeys, -⟩ := @filled_fresh δ server _ kind window cell
      (server.next on - 1) (on.session.withinMessageLimit fetchBatch) chunkSize on
    rw [passed_eq, hprior]
    refine ⟨fun k => ?_, hstate⟩
    show (filled kind window cell (server.next on - 1) _ chunkSize server on none).told k = _
    rw [htold, freshLeaves_eq hsafe hprior hkeys]
  | some p =>
    cases hfrom : backfillFrom (some p) server.uidValidity (server.next on) with
    | some high =>
      refine ⟨fun k => resumedLeaves server on window high (cell.told k) k,
        some (window.stamp (backfillFrontier (some p) (server.selected on) (server.next on)).encode),
        fun fetchBatch chunkSize => ?_⟩
      rw [passed_eq, hprior, hfrom]
      exact filled_resumed kind window cell high _ chunkSize p
    | none =>
      refine ⟨fun k => pageLeaves server on (some p) window 1 (cell.told k) k, some (window.stamp (pageCursor server on)),
        fun fetchBatch chunkSize => ?_⟩
      rw [passed_eq, hprior, hfrom]
      obtain ⟨htold, hstate⟩ := @paged_leaves δ server on _ kind window cell (some p)
        (on.session.withinMessageLimit fetchBatch) chunkSize
        (fun p' he => priorCursor_lt (hprior.trans he))
      refine ⟨fun k => ?_, hstate⟩
      show (paged kind window cell (some p) _ chunkSize server on).told k = _
      rw [htold, withinMessageLimit_idem, pageLeaves_eq hsafe hprior hfrom]

theorem chunkingSafe_fresh (h : ∀ fetchBatch chunkSize chunkSize',
      SameStored (passed kind window cell fetchBatch chunkSize server on)
        (passed kind window cell fetchBatch chunkSize' server on))
    (hprior : priorCursor window cell = none) (fetchBatch : Nat)
    (hm : m ∈ lastGroup server window.since (server.next on - 1) (on.session.withinMessageLimit fetchBatch)) :
    window.admits (server.stored on m).date = true ∨
      cell.told (server.stored on m).key = Told.asSent [server.stored on m] false := by
  have hpassed : ∀ chunkSize, passed kind window cell fetchBatch chunkSize server on =
      filled kind window cell (server.next on - 1) (on.session.withinMessageLimit fetchBatch) chunkSize
        server on none := by
    intro chunkSize
    rw [passed_eq, hprior]
    rfl
  obtain ⟨keys, htold, -, -, hall, -⟩ := @filled_fresh δ server _ kind window cell
    (server.next on - 1) (on.session.withinMessageLimit fetchBatch) 0 on
  obtain ⟨keys', htold', -, -, -, hnone⟩ := @filled_fresh δ server _ kind window cell
    (server.next on - 1) (on.session.withinMessageLimit fetchBatch) 1 on
  have hsame := (h fetchBatch 0 1).1 (server.stored on m).key
  obtain ⟨hmessage, hreach⟩ := mem_lastGroup hm
  have hfind : (server.find on (server.stored on m).key).filter
      (fun m => decide (m.uid ≤ server.next on - 1) && inWindow window.since m) = some m := by
    rw [Server.find_eq_some.mpr ⟨hmessage, rfl⟩]
    simp only [Option.filter, hreach, if_true]
  rw [hpassed, hpassed, htold, htold', hnone rfl] at hsame
  unfold freshLeaves at hsame
  rw [hfind] at hsame
  dsimp only at hsame
  rw [if_pos (.inr (hall rfl m hm))] at hsame
  by_cases hadmits : window.admits (server.stored on m).date = true
  · exact .inl hadmits
  · rw [if_neg (by simp [hadmits])] at hsame
    exact .inr hsame.symm

/-- Ranges of one UID name every message, so another width has to leave the same. -/
theorem chunkingSafe_resync (h : ∀ fetchBatch fetchBatch' chunkSize,
      SameStored (passed kind window cell fetchBatch chunkSize server on)
        (passed kind window cell fetchBatch' chunkSize server on)) (hprior : priorCursor window cell = some p)
    (hwhole : resyncsWhole server on window p) (fetchBatch : Nat)
    (hm : m ∈ server.messages) :
    resyncNames none p.uidNext (on.session.withinMessageLimit fetchBatch) m = true ∨
      (m.uid < p.uidNext ∧ (cell.told (server.stored on m).key).object = none ∧
        (cell.told (server.stored on m).key).change (projectStateChange (server.flagged on m)) =
          cell.told (server.stored on m).key) := by
  obtain ⟨hvalidity, hlow, hqresync, hunchanged, hsince⟩ := hwhole
  have hpassed : ∀ fetchBatch, (passed kind window cell fetchBatch 0 server on).told
      (server.stored on m).key = resyncLeaves server on p.uidNext
        (resyncNames none p.uidNext (on.session.withinMessageLimit fetchBatch))
        (cell.told (server.stored on m).key) (server.stored on m).key := by
    intro fetchBatch
    have hfrom : backfillFrom (some p) server.uidValidity (server.next on) = none := by
      simp [backfillFrom, hvalidity, hlow]
    obtain ⟨htold, -⟩ := @paged_leaves δ server on _ kind window cell (some p)
      (on.session.withinMessageLimit fetchBatch) 0
      (fun p' he => priorCursor_lt (hprior.trans he))
    rw [passed_eq, hprior, hfrom]
    show (paged kind window cell (some p) _ 0 server on).told _ = _
    rw [htold, withinMessageLimit_idem]
    simp [pageLeaves, hvalidity, hqresync, hunchanged, hsince]
  have hsame := (h fetchBatch 1 0).1 (server.stored on m).key
  rw [hpassed, hpassed, withinMessageLimit_one] at hsame
  by_cases hnamed : resyncNames none p.uidNext (on.session.withinMessageLimit fetchBatch) m = true
  · exact .inl hnamed
  · right
    unfold resyncLeaves at hsame
    rw [Server.find_eq_some.mpr ⟨hm, rfl⟩] at hsame
    simp only [Option.filter, resyncNames_one, hnamed, if_true, Bool.false_eq_true, if_false] at hsame
    cases hobject : (cell.told (server.stored on m).key).object with
    | some object =>
      -- it would be removed by one and kept by the other
      rw [hobject, Option.isSome_some, if_pos rfl] at hsame
      by_cases hnew : p.uidNext ≤ m.uid
      · rw [if_pos hnew] at hsame
        exact absurd (congrArg Told.object hsame) (by simp [Told.nothing, Told.asSent])
      · rw [if_neg hnew] at hsame
        have hkept := congrArg Told.object hsame
        rw [Told.object_change, hobject] at hkept
        exact absurd hkept (by simp [Told.nothing])
    | none =>
      rw [hobject, Option.isSome_none, if_neg (by simp)] at hsame
      by_cases hnew : p.uidNext ≤ m.uid
      · rw [if_pos hnew] at hsame
        have hkept := congrArg Told.object hsame
        rw [hobject] at hkept
        exact absurd hkept (by simp [Told.asSent])
      · rw [if_neg hnew] at hsame
        exact ⟨by omega, rfl, hsame.symm⟩

/-- A mailbox with one message of half past midnight, an hour east of UTC. -/
def eastward : Server Unit where
  uidValidity := 7
  uidNext := 6
  messages := [⟨2, [], ⟨⟨2026, 1, 2, by decide, by decide⟩, 1800, 60⟩, (), true, none, 3⟩]
  highestModseq := 3
  vanished := []
  saysUidNext := true
  saysModseq := id
  uids_nodup := by decide
  uid_pos := by decide
  uid_lt := by decide
  uidNext_lt := by decide
  vanished_gone := by decide

end Chunking

end Imap
end SyncEngine
