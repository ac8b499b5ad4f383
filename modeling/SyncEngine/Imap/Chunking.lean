import SyncEngine.Imap.Snapshots

/-!
# Whether chunking changes what is stored

What a pass over a mailbox that does not change leaves is the same for any number of messages in a command and in a
chunk, but for one case: a fresh backfill under a window searches by the day of `INTERNALDATE` as it is written, while
the engine asks an additive chunk, and not the last, for the day in UTC.
-/

namespace SyncEngine
namespace Imap

open Mail

variable {δ : Type} {server : Server δ}

/-! ## Pages send nothing -/

theorem sends_ite {α : Type} {c : Prop} [Decidable c] {x y : Pass δ α} (hx : server.sends x = [])
    (hy : server.sends y = []) : server.sends (if c then x else y) = [] := by
  by_cases h : c
  · rwa [if_pos h]
  · rwa [if_neg h]

theorem sends_collectDown (lowBound chunk : Nat) (target : Option Nat) (fuel windowHigh : Nat)
    (rows : List (FetchRow δ)) :
    server.sends (collectDown lowBound chunk target fuel windowHigh rows) = [] := by
  induction fuel generalizing windowHigh rows with
  | zero => rfl
  | succ fuel ih =>
    rw [collectDown, Server.sends_bind, Server.sends_fetch, List.nil_append]
    exact sends_ite rfl (sends_ite rfl (ih _ _))

theorem sends_snapshotPage (on : Binding) (validity : Nat) (cursor : SyncState) (uidNext : Nat)
    (page : Option Nat) (limit : Nat) (total : Option Nat) :
    server.sends (snapshotPage on validity cursor uidNext page limit total) = [] := by
  unfold snapshotPage snapshotFrom
  refine sends_ite rfl ?_
  simp only [Server.sends_bind, sends_collectDown, sends_settleAttachments, Server.sends_pure, List.append_nil]

theorem sends_windowedSnapshot (on : Binding) (validity : Nat) (cursor : SyncState) (page : Option Nat)
    (limit : Nat) (floor : CalendarDate) :
    server.sends (windowedSnapshot on validity cursor page limit floor) = [] := by
  unfold windowedSnapshot windowedSnapshotPage
  rw [Server.sends_bind, Server.sends_searchSince, List.nil_append]
  refine sends_ite rfl ?_
  simp only [Server.sends_bind, sends_uidFetchMetadata, Server.sends_pure, List.append_nil]

theorem sends_startOver (on : Binding) (validity : Nat) (cursor : SyncState) (uidNext : Nat)
    (page : Option Nat) (limit : Nat) (total : Option Nat) (since : Option CalendarDate) :
    server.sends (match since with
      | some floor => windowedSnapshot on validity cursor page limit floor
      | none => snapshotPage on validity cursor uidNext page limit total) = [] := by
  cases since with
  | none => exact sends_snapshotPage _ _ _ _ _ _ _
  | some floor => exact sends_windowedSnapshot _ _ _ _ _ _

theorem sends_syncPageSelected (on : Binding) (data : SelectData) (uidNext : Nat)
    (prior : Option MailboxCursor) (page : Option Nat) (limit : Nat) (since : Option CalendarDate) :
    server.sends (syncPageSelected on data uidNext prior page limit since) = [] := by
  have hdelta : ∀ cursor modseq below, server.sends (deltaPage on data.uidValidity cursor modseq below uidNext) = [] := by
    intro cursor modseq below
    have hchanged : server.sends (changedBelow modseq below) = [] := sends_ite rfl rfl
    have harrivals : server.sends (arrivalsFrom on below uidNext) = [] := sends_ite (sends_uidFetchMetadata _ _) rfl
    unfold deltaPage
    simp only [Server.sends_bind, hchanged, harrivals, Server.sends_pure, List.append_nil]
  have hresync : ∀ cursor below, server.sends (resyncPage on data.uidValidity cursor below uidNext
      since (on.session.withinMessageLimit limit)) = [] := by
    intro cursor below
    have hsets : server.sends (resyncSets since below uidNext (on.session.withinMessageLimit limit)) = [] := by
      unfold resyncSets
      cases since with
      | none => rfl
      | some floor => simp only [Server.sends_bind, Server.sends_searchSince, Server.sends_pure,
          List.append_nil]
    have hstate := Server.sends_collect server (fun set => Server.sends_fetchState server set)
    have hmeta := Server.sends_collect server (fun set => @sends_uidFetchMetadata δ server on.session set)
    unfold resyncPage
    simp only [Server.sends_bind, hsets, hstate, hmeta, Server.sends_pure, List.append_nil]
  unfold syncPageSelected
  cases prior with
  | none =>
    cases since with
    | none => exact sends_snapshotPage _ _ _ _ _ _ _
    | some floor => exact sends_windowedSnapshot _ _ _ _ _ _
  | some prior =>
    dsimp only
    refine sends_ite (sends_startOver _ _ _ _ _ _ _ _) (sends_ite ?_ (sends_ite rfl (hresync _ _)))
    cases prior.highestModseq with
    | none => exact sends_startOver _ _ _ _ _ _ _ _
    | some modseq => exact hdelta _ _ _

theorem sends_commitAll (chunks : List (EmailChunk (Content δ))) : server.sends (commitAll chunks) = chunks := by
  induction chunks with
  | nil => rfl
  | cons chunk chunks ih =>
    rw [commitAll, Server.sends_bind, ih]
    rfl

/-! ## Pages in turn -/

section Pages

variable (on : Binding) (data : SelectData) (uidNext : Nat) (prior : Option MailboxCursor)
  (since : Option CalendarDate) (fetchBatch chunkSize : Nat)

theorem sends_drainPages (fuel : Nat) (mode : Option PassMode) (total token : Option Nat) :
    server.sends (drainPages on data uidNext prior since fetchBatch chunkSize (fuel + 1) mode total token) =
      let page := server.gives (syncPageSelected on data uidNext prior token fetchBatch since)
      let mode := mode.getD page.kind.mode
      splitPage mode page.changed page.patched page.removed page.present (total.or page.total) chunkSize ++
        match page.nextPage with
        | none => [endOfPages mode (total.or page.total) page.nextCursor]
        | some token => server.sends (drainPages on data uidNext prior since fetchBatch chunkSize fuel
            mode (total.or page.total) token) := by
  rw [drainPages, Server.sends_bind, sends_syncPageSelected, List.nil_append, Server.sends_bind, sends_commitAll]
  dsimp only
  cases (server.gives (syncPageSelected on data uidNext prior token fetchBatch since)).nextPage with
  | none => rfl
  | some token => rfl

theorem drainPages_snapshot {cursor : SyncState} {reach : Option Nat → ServerMessage δ → Prop}
    {above : Nat → ServerMessage δ → Prop} {top : Nat}
    (hpage : ∀ token, PageDown server on (reach token) (token.getD top) above
        (server.gives (syncPageSelected on data uidNext prior token fetchBatch since)) ∧
      (server.gives (syncPageSelected on data uidNext prior token fetchBatch since)).nextCursor = cursor)
    (hsplit : ∀ token boundary m, boundary < token.getD top →
      (reach token m ↔ (reach token m ∧ above boundary m) ∨ reach (some boundary) m))
    (fuel : Nat) (mode : Option PassMode) (hmode : mode.getD .reconcile = .reconcile)
    (total token : Option Nat) (hfuel : token.getD top < fuel) :
    ∃ init ms total', server.sends (drainPages on data uidNext prior since fetchBatch chunkSize fuel
        mode total token) = init ++ [.reconcileLast [] [] total' cursor] ∧
      Covered server on ms init ∧ ∀ m, m ∈ ms ↔ m ∈ server.messages ∧ reach token m := by
  induction fuel generalizing mode total token with
  | zero => omega
  | succ fuel ih =>
    obtain ⟨⟨ms, hms, hnext⟩, hcursor⟩ := hpage token
    rw [sends_drainPages]
    dsimp only
    set page := server.gives (syncPageSelected on data uidNext prior token fetchBatch since)
    have hmode' : mode.getD page.kind.mode = .reconcile := by
      rw [hms.kind]
      exact hmode
    have hcovered := hms.covered (total.or page.total) chunkSize
    rw [hmode', hcursor]
    cases hp : page.nextPage with
    | none =>
      rw [hp] at hnext
      exact ⟨_, ms, _, rfl, hcovered, hnext⟩
    | some boundary =>
      rw [hp] at hnext
      obtain ⟨init, ms', total', hsends, hcovered', hms'⟩ := ih (some .reconcile) rfl
        (total.or page.total) (some boundary) (by rw [Option.getD_some]; omega)
      refine ⟨_, ms ++ ms', total', ?_, hcovered.append hcovered', ?_⟩
      · dsimp only
        rw [hsends, List.append_assoc]
      · intro m
        rw [List.mem_append, hnext.2, hms', hsplit token boundary m hnext.1]
        tauto

end Pages

/-! ## The groups of a backfill -/

theorem any_rangesDown {lowFloor step : Nat} (fuel windowHigh uid : Nat) (hlow : lowFloor ≤ windowHigh)
    (hfuel : windowHigh < lowFloor + fuel) :
    (∃ group ∈ rangesDown lowFloor step fuel windowHigh,
        group.1.any (server.inRange uid) = true) ↔ lowFloor ≤ uid ∧ uid ≤ windowHigh := by
  induction fuel generalizing windowHigh with
  | zero => omega
  | succ fuel ih =>
    rw [rangesDown]
    set windowLow := max lowFloor (windowHigh - (step - 1)) with hwindowLow
    by_cases hend : windowLow = lowFloor
    · rw [if_pos hend]
      simp only [List.mem_singleton, exists_eq_left, List.any_cons, List.any_nil, Bool.or_false,
        Server.inRange, Bool.and_eq_true, decide_eq_true_eq]
      omega
    · rw [if_neg hend]
      simp only [List.mem_cons, or_and_right, exists_or, exists_eq_left,
        ih (windowLow - 1) (by omega) (by omega), List.any_cons, List.any_nil, Bool.or_false,
        Server.inRange, Bool.and_eq_true, decide_eq_true_eq]
      omega

theorem any_listGroups {uids : List Nat} {fetchBatch uid : Nat} :
    (∃ group ∈ listGroups uids fetchBatch, group.1.any (server.inRange uid) = true) ↔ uid ∈ uids := by
  have hpos : 0 < if fetchBatch = 0 then max uids.length 1 else fetchBatch := by split <;> omega
  unfold listGroups
  simp only [List.mem_map, exists_exists_and_eq_and, Server.any_uidSetSpec, Server.mem_ascending]
  rw [← List.mem_flatten, flatten_chunks hpos]

section Backfill

variable (server) (on : Binding) (since : Option CalendarDate) (high fetchBatch : Nat)

def backfillSets : List (UidSet × Nat) := (server.gives (backfillGroups high since fetchBatch)).1

def lastGroup : List (ServerMessage δ) :=
  ((backfillSets server since high fetchBatch).getLast?.map fun group => server.named group.1).getD []

theorem mem_groupMessages {m : ServerMessage δ} : m ∈ groupMessages server (backfillSets server since high fetchBatch) ↔
      m ∈ server.messages ∧ (decide (m.uid ≤ high) && inWindow since m) = true := by
  have hany : m ∈ groupMessages server (backfillSets server since high fetchBatch) ↔
      m ∈ server.messages ∧ ∃ group ∈ backfillSets server since high fetchBatch,
        group.1.any (server.inRange m.uid) = true := by
    unfold groupMessages
    simp only [List.mem_flatMap, Server.mem_named]
    constructor
    · rintro ⟨group, hgroup, hm, hnamed⟩
      exact ⟨hm, group, hgroup, hnamed⟩
    · rintro ⟨hm, group, hgroup, hnamed⟩
      exact ⟨group, hgroup, hm, hnamed⟩
  rw [hany, Bool.and_eq_true, decide_eq_true_eq]
  refine and_congr_right fun hm => ?_
  have hpos := server.uid_pos m hm
  unfold backfillSets backfillGroups
  by_cases hzero : high = 0
  · rw [if_pos hzero]
    refine iff_of_false ?_ (by omega)
    rintro ⟨group, hgroup, -⟩
    exact absurd hgroup List.not_mem_nil
  · rw [if_neg hzero]
    cases since with
    | none =>
      have hnot : ¬high < 1 := by omega
      rw [Server.gives_pure]
      unfold fullRangeGroups
      rw [if_neg hnot, any_rangesDown _ _ _ (by omega) (by omega)]
      constructor
      · intro h
        exact ⟨h.2, rfl⟩
      · intro h
        exact ⟨by omega, h.1⟩
    | some floor =>
      simp only [Server.gives_bind, Server.gives_pure, Server.gives_searchSince, any_listGroups,
        Server.mem_descending, List.mem_filter, decide_eq_true_eq, Server.uid_mem_since hm]
      exact and_comm

theorem sends_backfill (prior : Option MailboxCursor) (chunkSize : Nat) :
    ∃ init buf total, server.sends (backfill on (server.selected on) (server.next on) prior since high
        fetchBatch chunkSize) =
        init ++ [backfillEnd (backfillFrontier prior (server.selected on) (server.next on)) prior.isNone total buf
          ((groupMessages server (backfillSets server since high fetchBatch)).map fun m => (server.stored on m).key)] ∧
      Swept server on (groupMessages server (backfillSets server since high fetchBatch)) init buf ∧
      (∀ k ∈ buf.map Message.key, ∃ m ∈ lastGroup server since high fetchBatch, (server.stored on m).key = k) ∧
      (chunkSize = 0 → ∀ m ∈ lastGroup server since high fetchBatch, (server.stored on m).key ∈ buf.map Message.key) ∧
      (chunkSize = 1 → buf = []) := by
  have hnothing : server.sends (backfillGroups high since fetchBatch) = [] := by
    unfold backfillGroups
    refine sends_ite rfl ?_
    cases since with
    | none => rfl
    | some floor => simp only [Server.sends_bind, Server.sends_searchSince, Server.sends_pure,
        List.append_nil]
  unfold backfill
  rw [Server.sends_bind, hnothing, List.nil_append]
  dsimp only
  set total := (server.gives (@backfillGroups δ high since fetchBatch)).2.or (some (server.selected on).total) with htotal
  by_cases hempty : (backfillSets server since high fetchBatch).isEmpty = true
  · have hnil := List.isEmpty_iff.mp hempty
    refine ⟨[], [], total, ?_, ?_, ?_, ?_, fun _ => rfl⟩
    · unfold backfillSets at hempty
      rw [if_pos hempty, hnil]
      rfl
    · rw [hnil]
      exact ⟨by simp [groupMessages], by simp, by simp, by simp, by simp [groupMessages], by simp⟩
    · intro k hk
      exact absurd hk List.not_mem_nil
    · intro _ m hm
      rw [lastGroup, hnil] at hm
      exact absurd hm List.not_mem_nil
  · have hne : backfillSets server since high fetchBatch ≠ [] := fun h => hempty (by rw [h]; rfl)
    obtain ⟨init, buf, hsends, hswept, hbuf⟩ := backfillScan_eq server on
      (backfillFrontier prior (server.selected on) (server.next on)) total chunkSize prior.isNone
      hne []
    obtain ⟨group, hlast⟩ : ∃ group, (backfillSets server since high fetchBatch).getLast? = some group := by
      cases h : (backfillSets server since high fetchBatch).getLast? with
      | none => exact absurd (List.getLast?_eq_none_iff.mp h) hne
      | some group => exact ⟨group, rfl⟩
    have hgroup : lastGroup server since high fetchBatch = server.named group.1 := by
      rw [lastGroup, hlast]
      rfl
    have hrest := hbuf group hlast
    refine ⟨init, buf, total, ?_, hswept, ?_, ?_, ?_⟩
    · unfold backfillSets at hempty
      rw [if_neg hempty]
      exact hsends
    · intro k hk
      obtain ⟨x, hx, rfl⟩ := List.mem_map.mp hk
      rw [hrest] at hx
      have hplaced := (mem_scanned _ _ (List.mem_append_right _ hx)).resolve_right List.not_mem_nil
      obtain ⟨m, hm, hkey, -⟩ := copies_placed server on group.1 hplaced
      exact ⟨m, hgroup ▸ hm, hkey.symm⟩
    · intro hzero m hm
      rw [hgroup] at hm
      have hlatest := latest_scanned chunkSize (placed server on group.1)
        (by simp : (([] : List (Message (Content δ))).map Message.key).Nodup)
        (server.stored on m).key
      rw [hzero, scanned_zero, latest_placed, Server.latest_stored (fun m hm =>
        (Server.mem_named.mp hm).1) hm, Option.some_or] at hlatest
      rw [hrest, hzero]
      obtain ⟨hmem, -⟩ := mem_of_latest hlatest
      exact List.mem_map.mpr ⟨_, by simpa using hmem, rfl⟩
    · intro hone
      rw [hrest, hone]
      exact scanned_one _

end Backfill

/-! ## What a pass of pages leaves -/

section PageLeaves

variable {on : Binding}

theorem PageDown.congr {reaches reaches' : ServerMessage δ → Prop} {top top' : Nat}
    {above : Nat → ServerMessage δ → Prop} {page : SyncPage (Content δ)}
    (h : PageDown server on reaches top above page)
    (hreaches : ∀ m ∈ server.messages, (reaches m ↔ reaches' m)) (htop : top ≤ top') :
    PageDown server on reaches' top' above page := by
  obtain ⟨ms, hms, hnext⟩ := h
  refine ⟨ms, hms, ?_⟩
  cases hpage : page.nextPage with
  | none =>
    rw [hpage] at hnext
    intro m
    rw [hnext]
    exact and_congr_right fun hm => hreaches m hm
  | some boundary =>
    rw [hpage] at hnext
    refine ⟨by omega, fun m => ?_⟩
    rw [hnext.2]
    exact and_congr_right fun hm => and_congr_left fun _ => hreaches m hm

theorem snapshotPage_down (nextCursor : SyncState) (token : Option Nat) (limit : Nat) (total : Option Nat) :
    PageDown server on (fun m => m.uid ≤ token.getD (server.next on - 1))
        (token.getD (server.next on - 1)) (fun boundary m => boundary < m.uid)
        (server.gives (snapshotPage on server.uidValidity nextCursor (server.next on) token limit total)) ∧
      (server.gives (snapshotPage on server.uidValidity nextCursor (server.next on) token limit
        total)).nextCursor = nextCursor := by
  unfold snapshotPage
  dsimp only
  set high := min (token.getD (server.next on - 1)) (server.next on - 1) with hhigh
  have hreaches : ∀ m ∈ server.messages, (m.uid ≤ high ↔ m.uid ≤ token.getD (server.next on - 1)) := by
    intro m hm
    have := @Server.uid_lt_next δ server on m hm
    omega
  by_cases hempty : high < 1
  · rw [if_pos hempty, Server.gives_pure]
    refine ⟨⟨[], emptyPage_of _ rfl _ _, fun m => ?_⟩, rfl⟩
    refine iff_of_false List.not_mem_nil ?_
    intro ⟨hm, hle⟩
    have := (hreaches m hm).mpr hle
    have := server.uid_pos m hm
    omega
  · rw [if_neg hempty]
    refine ⟨(snapshotFrom_down nextCursor (by omega) limit total).congr hreaches (by omega), ?_⟩
    unfold snapshotFrom
    simp only [Server.gives_bind, Server.gives_pure]

theorem nextCursor_windowedSnapshot (nextCursor : SyncState) (token : Option Nat) (limit : Nat) (floor : CalendarDate) :
    (server.gives (windowedSnapshot on server.uidValidity nextCursor token limit floor)).nextCursor = nextCursor := by
  unfold windowedSnapshot
  rw [Server.gives_bind]
  dsimp only
  by_cases hempty : (windowedChunk (ascending (server.gives (Pass.searchSince floor))) token limit).isEmpty = true
  · rw [if_pos hempty]
    rfl
  · rw [if_neg hempty]
    unfold windowedSnapshotPage
    simp only [Server.gives_bind, Server.gives_pure]

def pageCursor (server : Server δ) (on : Binding) : SyncState :=
  MailboxCursor.encode
    { uidValidity := server.uidValidity
      uidNext := server.next on
      highestModseq := (server.selected on).highestModseq
      backfillLow := none
      reconciled := true
      version := cursorVersion }

theorem sends_onePage (prior : Option MailboxCursor) (fetchBatch chunkSize : Nat)
    {page : SyncPage (Content δ)} (since : Option CalendarDate)
    (h : server.gives (syncPageSelected on (server.selected on) (server.next on) prior none
      fetchBatch since) = page) (hnext : page.nextPage = none) :
    server.sends (streamPages on (server.selected on) (server.next on) prior since fetchBatch chunkSize) =
      splitPage page.kind.mode page.changed page.patched page.removed page.present page.total
        chunkSize ++ [endOfPages page.kind.mode page.total page.nextCursor] := by
  unfold streamPages
  rw [sends_drainPages, h]
  dsimp only
  rw [hnext]
  rfl

section

variable [MailContent δ] (kind : StoreKind) (window : SyncWindow) (cell : ScopeCell (Content δ))
  (prior : Option MailboxCursor) (fetchBatch chunkSize : Nat)

def paged (server : Server δ) (on : Binding) : ScopeCell (Content δ) :=
  streamed kind window cell (server.sends (streamPages on (server.selected on) (server.next on) prior
    window.since fetchBatch chunkSize))

theorem paged_snapshot (h : ∀ token, server.gives (syncPageSelected on (server.selected on) (server.next on) prior token
        fetchBatch window.since) =
      match window.since with
      | some floor => server.gives (windowedSnapshot on server.uidValidity (pageCursor server on) token
          (on.session.withinMessageLimit fetchBatch) floor)
      | none => server.gives (snapshotPage on server.uidValidity (pageCursor server on)
          (server.next on) token (on.session.withinMessageLimit fetchBatch)
          (some (server.selected on).total))) :
    (∀ k, (paged kind window cell prior fetchBatch chunkSize server on).told k =
      snapshotLeaves server on (inWindow window.since) (cell.told k) k) ∧
    (paged kind window cell prior fetchBatch chunkSize server on).state = some (window.stamp (pageCursor server on)) := by
  obtain ⟨init, ms, total, hsends, hcovered, hms⟩ : ∃ init ms total,
      server.sends (streamPages on (server.selected on) (server.next on) prior window.since fetchBatch
        chunkSize) = init ++ [.reconcileLast [] [] total (pageCursor server on)] ∧
      Covered server on ms init ∧
      ∀ m, m ∈ ms ↔ m ∈ server.messages ∧ inWindow window.since m = true := by
    cases hsince : window.since with
    | none =>
      simp only [hsince] at h
      obtain ⟨init, ms, total, hsends, hcovered, hms⟩ := @drainPages_snapshot δ server on
        (server.selected on) (server.next on) prior none fetchBatch chunkSize (pageCursor server on)
        (fun token m => m.uid ≤ token.getD (server.next on - 1)) (fun boundary m => boundary < m.uid)
        (server.next on - 1)
        (by
          intro token
          rw [h token]
          exact snapshotPage_down _ _ _ _)
        (by
          intro token boundary m hlt
          rw [Option.getD_some]
          omega)
        (server.next on + 1) none rfl none none
        (by
          rw [Option.getD_none]
          omega)
      refine ⟨init, ms, total, hsends, hcovered, fun m => ?_⟩
      rw [hms]
      refine and_congr_right fun hm => iff_of_true ?_ rfl
      have := @Server.uid_lt_next δ server on m hm
      show m.uid ≤ server.next on - 1
      omega
    | some floor =>
      simp only [hsince] at h
      obtain ⟨init, ms, total, hsends, hcovered, hms⟩ := @drainPages_snapshot δ server on
        (server.selected on) (server.next on) prior (some floor) fetchBatch chunkSize
        (pageCursor server on) (windowReach floor) (fun boundary m => boundary ≤ m.uid)
        (server.next on)
        (by
          intro token
          rw [h token]
          exact ⟨windowedSnapshot_down _ _ _ _, nextCursor_windowedSnapshot _ _ _ _⟩)
        (by
          intro token boundary m hlt
          unfold windowReach
          cases token with
          | none =>
            simp only [reduceCtorEq, false_implies, implies_true, and_true, Option.some.injEq, forall_eq']
            by_cases hb : boundary ≤ m.uid
            · simp [hb]
            · simp [hb, Nat.lt_of_not_le hb]
          | some token =>
            rw [Option.getD_some] at hlt
            simp only [Option.some.injEq, forall_eq']
            by_cases hb : boundary ≤ m.uid
            · have : ¬m.uid < boundary := by omega
              simp [hb, this]
            · have h₁ : m.uid < boundary := by omega
              have h₂ : m.uid < token := by omega
              simp [hb, h₁, h₂])
        (server.next on + 1) none rfl none none
        (by
          rw [Option.getD_none]
          omega)
      refine ⟨init, ms, total, hsends, hcovered, fun m => ?_⟩
      rw [hms]
      unfold windowReach
      simp
  unfold paged
  rw [hsends]
  exact ⟨hcovered.told hms kind window cell total _, state_streamed kind window cell rfl⟩

def pageLeaves (server : Server δ) (on : Binding) (prior : Option MailboxCursor)
    (window : SyncWindow) (limit : Nat) (s : Told (Content δ)) (k : ProviderKey) :
    Told (Content δ) :=
  match prior with
  | none => snapshotLeaves server on (inWindow window.since) s k
  | some prior =>
    if prior.uidValidity ≠ server.uidValidity then
      snapshotLeaves server on (inWindow window.since) s k
    else if on.session.qresync then
      match prior.highestModseq with
      | none => snapshotLeaves server on (inWindow window.since) s k
      | some modseq => deltaLeaves server on modseq prior.uidNext window s k
    else if unchanged on.session prior (server.next on) (server.selected on).highestModseq then s
    else resyncLeaves server on prior.uidNext (resyncNames window.since prior.uidNext limit) s k

theorem paged_leaves (hprior : ∀ p, prior = some p → p.uidNext < 2 ^ 32) :
    (∀ k, (paged kind window cell prior fetchBatch chunkSize server on).told k =
      pageLeaves server on prior window (on.session.withinMessageLimit fetchBatch) (cell.told k) k) ∧
    (paged kind window cell prior fetchBatch chunkSize server on).state = some (window.stamp (pageCursor server on)) := by
  have hvalidity : (server.selected on).uidValidity = server.uidValidity := rfl
  -- the page of each path, as `syncPageSelected` chooses it
  cases prior with
  | none =>
    apply paged_snapshot
    intro token
    cases window.since with
    | none => rfl
    | some floor => rfl
  | some p =>
    unfold pageLeaves
    dsimp only
    by_cases hreset : p.uidValidity ≠ server.uidValidity
    · simp only [if_pos hreset]
      apply paged_snapshot
      intro token
      unfold syncPageSelected
      dsimp only
      rw [hvalidity, if_pos hreset]
      cases window.since with
      | none => rfl
      | some floor => rfl
    · simp only [if_neg hreset]
      by_cases hqresync : on.session.qresync = true
      · simp only [if_pos hqresync]
        cases hmodseq : p.highestModseq with
        | none =>
          apply paged_snapshot
          intro token
          unfold syncPageSelected
          dsimp only
          rw [hvalidity, if_neg hreset, if_pos hqresync, hmodseq]
          cases window.since with
          | none => rfl
          | some floor => rfl
        | some modseq =>
          have hdelta := @delta δ server on modseq p.uidNext (pageCursor server on)
          set page := server.gives (deltaPage on server.uidValidity (pageCursor server on) modseq
            p.uidNext (server.next on)) with hpage
          have hgives : server.gives (syncPageSelected on (server.selected on) (server.next on)
              (some p) none fetchBatch window.since) = page := by
            unfold syncPageSelected
            dsimp only
            rw [hvalidity, if_neg hreset, if_pos hqresync, hmodseq]
            rfl
          have hcursor : page.nextCursor = pageCursor server on := by
            rw [hpage]
            unfold deltaPage
            simp only [Server.gives_bind, Server.gives_pure]
          unfold paged
          rw [sends_onePage (some p) fetchBatch chunkSize window.since hgives hdelta.nextPage, hdelta.kind, hcursor]
          exact ⟨hdelta.told on modseq p.uidNext kind window cell page.total chunkSize _,
            state_streamed kind window cell rfl⟩
      · simp only [if_neg hqresync]
        by_cases hunchanged : unchanged on.session p (server.next on) (server.selected on).highestModseq = true
        · have hgives : server.gives (syncPageSelected on (server.selected on) (server.next on)
              (some p) none fetchBatch window.since) = emptyPage .delta (pageCursor server on) none := by
            unfold syncPageSelected
            dsimp only
            rw [hvalidity, if_neg hreset, if_neg hqresync, if_pos hunchanged]
            rfl
          simp only [if_pos hunchanged]
          unfold paged
          rw [sends_onePage (some p) fetchBatch chunkSize window.since hgives rfl]
          refine ⟨fun k => ?_, state_streamed kind window cell rfl⟩
          show (streamed kind window cell ([] ++ [.additive [] [] none _])).told k = _
          rw [told_additivePages kind window cell (by simp) (by simp) (by simp)]
          rfl
        · have hresynced := @resynced δ server on p.uidNext
            (on.session.withinMessageLimit fetchBatch) window.since (hprior p rfl)
            (pageCursor server on)
          set page := server.gives (resyncPage on server.uidValidity (pageCursor server on) p.uidNext
            (server.next on) window.since (on.session.withinMessageLimit fetchBatch)) with hpage
          have hgives : server.gives (syncPageSelected on (server.selected on) (server.next on)
              (some p) none fetchBatch window.since) = page := by
            unfold syncPageSelected
            dsimp only
            rw [hvalidity, if_neg hreset, if_neg hqresync, if_neg hunchanged]
            rfl
          have hcursor : page.nextCursor = pageCursor server on := by
            rw [hpage]
            unfold resyncPage
            simp only [Server.gives_bind, Server.gives_pure]
          simp only [if_neg hunchanged]
          unfold paged
          rw [sends_onePage (some p) fetchBatch chunkSize window.since hgives hresynced.nextPage, hresynced.kind, hcursor]
          exact ⟨hresynced.told on kind window cell page.total chunkSize _, state_streamed kind window cell rfl⟩

end

end PageLeaves

/-! ## What a backfill leaves -/

section BackfillLeaves

variable [MailContent δ] (kind : StoreKind) (window : SyncWindow) (cell : ScopeCell (Content δ))
  (high fetchBatch chunkSize : Nat)

def filled (server : Server δ) (on : Binding) (prior : Option MailboxCursor) :
    ScopeCell (Content δ) :=
  streamed kind window cell (server.sends (backfill on (server.selected on) (server.next on) prior
    window.since high fetchBatch chunkSize))

def resumedLeaves (server : Server δ) (on : Binding) (window : SyncWindow) (high : Nat)
    (s : Told (Content δ)) (k : ProviderKey) : Told (Content δ) :=
  match (server.find on k).filter fun m => decide (m.uid ≤ high) && inWindow window.since m with
  | some m =>
    if window.admits (server.stored on m).date then Told.asSent [server.stored on m] false else s
  | none => s

/-- What a backfill from the start leaves, with the keys that are still to go out when it ends. -/
def freshLeaves (server : Server δ) (on : Binding) (window : SyncWindow) (high : Nat)
    (last : ProviderKey → Prop) [DecidablePred last] (s : Told (Content δ)) (k : ProviderKey) :
    Told (Content δ) :=
  match (server.find on k).filter fun m => decide (m.uid ≤ high) && inWindow window.since m with
  | some m =>
    if window.admits (server.stored on m).date = true ∨ last k then
      Told.asSent [server.stored on m] false
    else s
  | none => if s.object.isSome then Told.nothing else s

variable {on : Binding}

theorem filled_resumed (prior : MailboxCursor) :
    (∀ k, (filled kind window cell high fetchBatch chunkSize server on (some prior)).told k =
      resumedLeaves server on window high (cell.told k) k) ∧
    (filled kind window cell high fetchBatch chunkSize server on (some prior)).state =
      some (window.stamp (backfillFrontier (some prior) (server.selected on) (server.next on)).encode) := by
  obtain ⟨init, buf, total, hsends, hswept, -⟩ :=
    sends_backfill server on window.since high fetchBatch (some prior) chunkSize
  unfold filled
  rw [hsends]
  refine ⟨fun k => ?_, state_streamed kind window cell rfl⟩
  have hfinal : ∀ c ∈ init ++ [EmailChunk.additive buf [] total (backfillFrontier (some prior)
      (server.selected on) (server.next on)).encode], c.isReconcileFinal = false := by
    intro c hc
    have hmode : c.mode = .additive := by
      rcases List.mem_append.mp hc with hc | hc
      · exact (hswept.additive c hc).1
      · rw [List.mem_singleton.mp hc]
        rfl
    rw [EmailChunk.isReconcileFinal, hmode]
    rfl
  show (streamed kind window cell (init ++ [EmailChunk.additive buf [] total _])).told k = _
  rw [told_streamed kind window cell hfinal, hswept.told_additive,
    Server.latest_of_stored fun m => mem_groupMessages server window.since high fetchBatch]
  unfold resumedLeaves
  cases (server.find on k).filter fun m => decide (m.uid ≤ high) && inWindow window.since m with
  | none => rfl
  | some m => rfl

theorem filled_fresh : ∃ keys : List ProviderKey,
      (∀ k, (filled kind window cell high fetchBatch chunkSize server on none).told k =
        freshLeaves server on window high (· ∈ keys) (cell.told k) k) ∧
      (filled kind window cell high fetchBatch chunkSize server on none).state =
        some (window.stamp (backfillFrontier none (server.selected on) (server.next on)).encode) ∧
      (∀ k ∈ keys, ∃ m ∈ lastGroup server window.since high fetchBatch, (server.stored on m).key = k) ∧
      (chunkSize = 0 → ∀ m ∈ lastGroup server window.since high fetchBatch, (server.stored on m).key ∈ keys) ∧
      (chunkSize = 1 → keys = []) := by
  obtain ⟨init, buf, total, hsends, hswept, hlast, hall, hnone⟩ :=
    sends_backfill server on window.since high fetchBatch none chunkSize
  unfold filled
  rw [hsends]
  refine ⟨buf.map Message.key, fun k => ?_, state_streamed kind window cell rfl, hlast, hall, ?_⟩
  · have hfinal : ∀ c ∈ init, c.isReconcileFinal = false := by
      intro c hc
      rw [EmailChunk.isReconcileFinal, (hswept.additive c hc).1]
      rfl
    have hcovers : init.flatMap EmailChunk.covers = [] := by
      rw [List.flatMap_eq_nil_iff]
      intro c hc
      rw [EmailChunk.covers, (hswept.additive c hc).1]
      rfl
    rw [told_streamed_final kind window cell hfinal rfl, hcovers]
    show (List.foldl _ (cell.told k) _).close (buf.filter fun m => m.key = k)
      ((groupMessages server (backfillSets server window.since high fetchBatch)).map
        fun m => (server.stored on m).key) k = _
    rw [hswept.told_reconcile, Server.latest_of_stored fun m => mem_groupMessages server window.since high fetchBatch]
    unfold freshLeaves
    cases (server.find on k).filter fun m => decide (m.uid ≤ high) && inWindow window.since m with
    | none => rfl
    | some m => rfl
  · intro hone
    rw [hnone hone, List.map_nil]

end BackfillLeaves

end Imap
end SyncEngine
