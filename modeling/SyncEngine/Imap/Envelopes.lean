import SyncEngine.Imap.Stream

/-!
# Messages and their envelopes

A server may interleave rows that carry only flags with those it was asked for.  A delta and a resync take such a row for
a change of state; every other way takes each row of its answer for a message.
-/

namespace SyncEngine
namespace Imap

open Dialogue Mail

variable {δ : Type}

def FetchRow.HasEnvelope (row : FetchRow δ) : Prop := row.envelope.isSome = true

def Whole (m : Message (Content δ)) : Prop := m.content.envelope.isSome = true

def CommitsWhole (request : Request δ) : Prop := ∀ chunk, request.chunk? = some chunk → ∀ m ∈ chunk.changed, Whole m

def Solicited (x : Exchange (Request δ) Request.Answer) : Prop :=
  ∀ (set : UidSet) (rows : List (FetchRow δ)), x = ⟨.fetch set, rows⟩ → ∀ row ∈ rows, row.HasEnvelope

/-- Whether a mailbox is opened that the cursor has read all of, so that what follows is a delta or a resync. -/
def Continues (session : Negotiated) (prior : Option MailboxCursor) (x : Exchange (Request δ) Request.Answer) : Prop :=
  ∀ (condstore : Bool) (data : SelectData), x = ⟨.select condstore, data⟩ →
    ∃ p, prior = some p ∧ p.uidValidity = data.uidValidity ∧ p.backfillLow = none ∧
      (session.qresync = true → p.highestModseq ≠ none)

/-! ## Settling attachments -/

section Settle

variable {rows opened kept : List (FetchRow δ)} {row answer : FetchRow δ}

def EnvelopesOf (rows kept : List (FetchRow δ)) : Prop := ∀ row ∈ kept, ∃ row' ∈ rows, row.envelope = row'.envelope

theorem EnvelopesOf.whole (h : EnvelopesOf rows kept) (hrows : ∀ row ∈ rows, row.HasEnvelope) :
    ∀ row ∈ kept, row.HasEnvelope := by
  intro row hrow
  obtain ⟨row', hrow', he⟩ := h row hrow
  show row.envelope.isSome = true
  rw [he]
  exact hrows row' hrow'

theorem envelopesOf_settleRow (rows : List (FetchRow δ)) (answer : FetchRow δ) :
    EnvelopesOf rows (settleRow rows answer) := by
  fun_induction settleRow rows answer with
  | case1 rows h => exact fun row hrow => ⟨row, hrow, rfl⟩
  | case2 found h => exact fun row hrow => nomatch hrow
  | case3 found row rest h hsame =>
    intro settled hsettled
    rcases List.mem_cons.mp hsettled with rfl | hlater
    · exact ⟨row, List.mem_cons_self, rfl⟩
    · exact ⟨settled, List.mem_cons_of_mem _ hlater, rfl⟩
  | case4 found row rest h hother ih =>
    intro settled hsettled
    rcases List.mem_cons.mp hsettled with rfl | hlater
    · exact ⟨settled, List.mem_cons_self, rfl⟩
    · obtain ⟨row', hrow', he⟩ := ih settled hlater
      exact ⟨row', List.mem_cons_of_mem _ hrow', he⟩

variable (answers : List (FetchRow δ))

theorem envelopesOf_foldl (rows : List (FetchRow δ)) : EnvelopesOf rows (answers.foldl settleRow rows) := by
  induction answers generalizing rows with
  | nil => exact fun row hrow => ⟨row, hrow, rfl⟩
  | cons answer answers ih =>
    intro row hrow
    obtain ⟨row', hrow', he⟩ := ih (settleRow rows answer) row hrow
    obtain ⟨row'', hrow'', he'⟩ := envelopesOf_settleRow rows answer row' hrow'
    exact ⟨row'', hrow'', he.trans he'⟩

theorem envelopesOf_takeSettled (s : List (FetchRow δ) × List (FetchRow δ))
    (h : ∀ row ∈ s.1, ∃ row' ∈ opened, row.envelope = row'.envelope) (hsettled : EnvelopesOf opened s.2) :
    EnvelopesOf opened (answers.foldl takeSettled s).2 := by
  induction answers generalizing s with
  | nil => exact hsettled
  | cons answer answers ih =>
    rw [List.foldl_cons]
    unfold takeSettled
    split
    · rename_i found row _ hfind
      apply ih
      · exact fun row' hrow' => h row' (List.eraseP_subset hrow')
      · intro row' hrow'
        rcases List.mem_append.mp hrow' with hbefore | hnew
        · exact hsettled row' hbefore
        · obtain rfl := List.mem_singleton.mp hnew
          exact h row (List.mem_of_find?_eq_some hfind)
    · exact ih s h hsettled

end Settle

/-! ## Pages -/

section Pages

variable {R : Exchange (Request δ) Request.Answer → Prop} {on : Binding} {uidValidity sinceModseq syncedBelow uidNext : Nat}
  {lowBound high limit : Nat} {nextCursor : SyncState} {page token total : Option Nat} {since : Option CalendarDate}
  {inWindow chunk : List Nat} {data : SelectData} {prior : Option MailboxCursor}

def PageWhole (page : SyncPage (Content δ)) : Prop := ∀ m ∈ page.changed, Whole m

theorem relies_collect {ask : UidSet → Pass δ (List (FetchRow δ))} {Kept : FetchRow δ → Prop}
    (h : ∀ set, Relies R CommitsWhole (fun rows => ∀ row ∈ rows, Kept row) (ask set)) (sets : List UidSet) :
    Relies R CommitsWhole (fun rows => ∀ row ∈ rows, Kept row) (Pass.collect ask sets) := by
  induction sets with
  | nil => exact relies_pure fun row hrow => nomatch hrow
  | cons set sets ih =>
    refine relies_bind (h set) fun rows hrows => relies_bind ih fun more hmore => relies_pure fun row hrow => ?_
    rcases List.mem_append.mp hrow with hrow | hrow
    · exact hrows row hrow
    · exact hmore row hrow

variable {q : Request δ}

theorem commitsWhole_of_none (h : q.chunk? = none) : CommitsWhole q := by
  intro chunk hchunk
  rw [h] at hchunk
  exact nomatch hchunk

theorem relies_ask (h : q.chunk? = none) : Relies R CommitsWhole (fun _ => True)
    (Dialogue.request q : Dialogue (Request δ) Request.Answer _) :=
  relies_request (commitsWhole_of_none h) fun _ _ => trivial

theorem relies_fetch (hR : ∀ x, R x → Solicited x) (set : UidSet) :
    Relies R CommitsWhole (fun rows => ∀ row ∈ rows, row.HasEnvelope) (Pass.fetch set : Pass δ _) :=
  relies_request (commitsWhole_of_none rfl) fun rows hrows => hR _ hrows set rows rfl

variable (session : Negotiated)

theorem relies_fetchStructures (uids : List Nat) :
    Relies R CommitsWhole (fun _ => True) (fetchStructures session uids : Pass δ _) := by
  have hall := @relies_collect δ R Pass.fetchStructure (fun _ => True)
    (fun set => relies_request (commitsWhole_of_none rfl) fun _ _ _ _ => trivial)
    (structureSets uids (session.withinMessageLimit structureBatch))
  exact hall.mono fun _ _ => trivial

theorem relies_settleAttachments (rows : List (FetchRow δ)) :
    Relies R CommitsWhole (EnvelopesOf rows) (settleAttachments session rows) :=
  relies_bind (relies_fetchStructures _ _) fun answers _ => relies_pure (envelopesOf_foldl answers rows)

theorem relies_uidFetchMetadata (hR : ∀ x, R x → Solicited x) (session : Negotiated) (set : UidSet) :
    Relies R CommitsWhole (fun rows => ∀ row ∈ rows, row.HasEnvelope) (uidFetchMetadata session set : Pass δ _) := by
  refine relies_bind (relies_fetch hR set) fun rows hrows => ?_
  exact (relies_settleAttachments session rows).mono fun kept hkept => hkept.whole hrows

theorem relies_anyMetadata (set : UidSet) :
    Relies R CommitsWhole (fun _ => True) (uidFetchMetadata session set : Pass δ _) :=
  relies_bind (relies_ask rfl) fun rows _ => (relies_settleAttachments session rows).mono fun _ _ => trivial

theorem relies_deltaPage : Relies R CommitsWhole PageWhole
    (deltaPage on uidValidity nextCursor sinceModseq syncedBelow uidNext : Pass δ _) := by
  have hstate : Relies R CommitsWhole (fun _ => True) (changedBelow sinceModseq syncedBelow : Pass δ _) := by
    unfold changedBelow
    split
    · exact relies_ask rfl
    · exact relies_pure trivial
  have harrivals : Relies R CommitsWhole (fun _ => True) (arrivalsFrom on syncedBelow uidNext : Pass δ _) := by
    unfold arrivalsFrom
    split
    · exact relies_anyMetadata _ _
    · exact relies_pure trivial
  refine relies_bind hstate fun state _ => relies_bind harrivals fun arrivals _ => relies_pure ?_
  intro m hm
  obtain ⟨row, hrow, rfl⟩ := List.mem_map.mp hm
  have hkept := (List.mem_filter.mp hrow).2
  exact (Bool.and_eq_true_iff.mp hkept).1

theorem relies_resyncPage : Relies R CommitsWhole PageWhole
    (resyncPage on uidValidity nextCursor syncedBelow uidNext since limit : Pass δ _) := by
  have hsets : Relies R CommitsWhole (fun _ => True) (resyncSets since syncedBelow uidNext limit : Pass δ _) := by
    unfold resyncSets
    split
    · exact relies_bind (relies_ask rfl) fun _ _ => relies_pure trivial
    · exact relies_pure trivial
  have hstate : ∀ sets, Relies R CommitsWhole (fun _ => True) (Pass.collect Pass.fetchState sets : Pass δ _) := fun sets =>
    (@relies_collect δ R Pass.fetchState (fun _ => True)
      (fun set => relies_request (commitsWhole_of_none rfl) fun _ _ _ _ => trivial) sets).mono fun _ _ => trivial
  have harrivals : ∀ sets, Relies R CommitsWhole (fun _ => True)
      (Pass.collect (uidFetchMetadata on.session) sets : Pass δ _) := fun sets =>
    (@relies_collect δ R (uidFetchMetadata on.session) (fun _ => True)
      (fun set => (relies_anyMetadata on.session set).mono fun _ _ _ _ => trivial) sets).mono fun _ _ => trivial
  refine relies_bind hsets fun sets _ => relies_bind (hstate _) fun rows _ => relies_bind (harrivals _) fun arrivals _ =>
    relies_pure ?_
  intro m hm
  obtain ⟨row, hrow, rfl⟩ := List.mem_map.mp hm
  have hrow' := (List.perm_insertionSort _ _).subset hrow
  have hkept := (List.mem_filter.mp hrow').2
  exact (Bool.and_eq_true_iff.mp hkept).1

theorem pageWhole_empty (kind : SyncKind) (nextCursor : SyncState) (total : Option Nat) :
    PageWhole (emptyPage kind nextCursor total : SyncPage (Content δ)) := fun _ hm => nomatch hm

theorem relies_collectDown (hR : ∀ x, R x → Solicited x) (target : Option Nat) (fuel windowHigh : Nat)
    (rows : List (FetchRow δ)) (hrows : ∀ row ∈ rows, row.HasEnvelope) :
    Relies R CommitsWhole (fun r => ∀ row ∈ r.1, row.HasEnvelope)
      (collectDown lowBound limit target fuel windowHigh rows) := by
  induction fuel generalizing windowHigh rows with
  | zero => exact relies_pure hrows
  | succ fuel ih =>
    refine relies_bind (relies_fetch hR _) fun fetched hfetched => ?_
    have hall : ∀ row ∈ rows ++ fetched, row.HasEnvelope := by
      intro row hrow
      rcases List.mem_append.mp hrow with hrow | hrow
      · exact hrows row hrow
      · exact hfetched row hrow
    dsimp only
    split
    · exact relies_pure hall
    · split
      · exact relies_pure hall
      · exact ih _ _ hall

theorem relies_snapshotPage (hR : ∀ x, R x → Solicited x) : Relies R CommitsWhole PageWhole
    (snapshotPage on uidValidity nextCursor uidNext page limit total : Pass δ _) := by
  unfold snapshotPage
  dsimp only
  split
  · exact relies_pure (pageWhole_empty _ _ _)
  · unfold snapshotFrom
    refine relies_bind (relies_collectDown hR _ _ _ [] fun row hrow => nomatch hrow) fun r hrows => ?_
    refine relies_bind (relies_settleAttachments _ _) fun kept hkept => relies_pure fun m hm => ?_
    obtain ⟨row, hrow, rfl⟩ := List.mem_map.mp hm
    refine hkept.whole (fun row' hrow' => hrows row' ?_) row (List.mem_reverse.mp hrow)
    exact (List.perm_insertionSort _ _).subset ((List.drop_sublist _ _).subset hrow')

theorem relies_windowedSnapshot (hR : ∀ x, R x → Solicited x) (floor : CalendarDate) : Relies R CommitsWhole PageWhole
    (windowedSnapshot on uidValidity nextCursor page limit floor : Pass δ _) := by
  refine relies_bind (relies_ask rfl) fun found _ => ?_
  dsimp only
  split
  · exact relies_pure (pageWhole_empty _ _ _)
  · refine relies_bind (relies_uidFetchMetadata hR _ _) fun rows hrows => relies_pure fun m hm => ?_
    obtain ⟨row, hrow, rfl⟩ := List.mem_map.mp hm
    exact hrows row ((List.perm_insertionSort _ _).subset hrow)

/-- Whether a pass after a cursor is a delta or a resync. -/
def Guarded (session : Negotiated) (prior : Option MailboxCursor) (data : SelectData) : Prop :=
  ∃ p, prior = some p ∧ p.uidValidity = data.uidValidity ∧ p.backfillLow = none ∧
    (session.qresync = true → p.highestModseq ≠ none)

theorem relies_syncPageSelected (h : (∀ x, R x → Solicited x) ∨ Guarded on.session prior data) :
    Relies R CommitsWhole PageWhole (syncPageSelected on data uidNext prior token limit since : Pass δ _) := by
  unfold syncPageSelected
  extract_lets limit qresync nextCursor total snapshot
  have hsnapshot : (∀ x, R x → Solicited x) → Relies R CommitsWhole PageWhole snapshot := by
    intro hR
    cases since with
    | some floor => exact relies_windowedSnapshot hR floor
    | none => exact relies_snapshotPage hR
  rcases h with hR | ⟨p, rfl, hvalidity, -, hbaseline⟩
  · split
    · exact hsnapshot hR
    · split
      · exact hsnapshot hR
      · split
        · split
          · exact hsnapshot hR
          · exact relies_deltaPage
        · split
          · exact relies_pure (pageWhole_empty _ _ _)
          · exact relies_resyncPage
  · dsimp only
    rw [if_neg (not_not.mpr hvalidity)]
    split
    · rename_i hqresync
      split
      · rename_i hnone
        exact absurd hnone (hbaseline hqresync)
      · exact relies_deltaPage
    · split
      · exact relies_pure (pageWhole_empty _ _ _)
      · exact relies_resyncPage

end Pages

/-! ## Passes -/

section Passes

variable {R : Exchange (Request δ) Request.Answer → Prop} {on : Binding} {data : SelectData} {prior : Option MailboxCursor}
  {uidNext uidValidity fetchBatch chunkSize : Nat} {since : Option CalendarDate} {total : Option Nat}
  {buf messages : List (Message (Content δ))} {groups : List (UidSet × Nat)} {frontier : MailboxCursor} {isFresh : Bool}

theorem relies_commit {chunk : EmailChunk (Content δ)} (h : ∀ m ∈ chunk.changed, Whole m) :
    Relies R CommitsWhole (fun _ => True) (Pass.commit chunk) := by
  refine relies_request ?_ fun _ _ => trivial
  intro chunk' hchunk
  obtain rfl := Option.some.inj hchunk
  exact h

theorem relies_sendFull (h : ∀ m ∈ buf, Whole m) :
    Relies R CommitsWhole (fun left => ∀ m ∈ left, Whole m) (sendFull total chunkSize buf) := by
  unfold sendFull
  split
  · exact relies_bind (relies_commit h) fun _ _ => relies_pure fun m hm => nomatch hm
  · exact relies_pure h

theorem relies_scanMessages {place : List (Message (Content δ)) → Message (Content δ) → List (Message (Content δ))}
    (hplace : ∀ buf m, (∀ x ∈ buf, Whole x) → Whole m → ∀ x ∈ place buf m, Whole x)
    (hmessages : ∀ m ∈ messages, Whole m) (hbuf : ∀ m ∈ buf, Whole m) :
    Relies R CommitsWhole (fun left => ∀ m ∈ left, Whole m) (scanMessages total chunkSize place messages buf) := by
  induction messages generalizing buf with
  | nil => exact relies_pure hbuf
  | cons m messages ih =>
    obtain ⟨hm, hlater⟩ := List.forall_mem_cons.mp hmessages
    exact relies_bind (relies_sendFull (hplace buf m hbuf hm)) fun left hleft => ih hlater hleft

theorem whole_replaceHeld (m : Message (Content δ)) (hm : Whole m) (hbuf : ∀ x ∈ buf, Whole x) :
    ∀ x ∈ replaceHeld m buf, Whole x := by
  induction buf with
  | nil =>
    intro x hx
    obtain rfl := List.mem_singleton.mp hx
    exact hm
  | cons held buf ih =>
    obtain ⟨hheld, hlater⟩ := List.forall_mem_cons.mp hbuf
    rw [replaceHeld]
    split
    · exact List.forall_mem_cons.mpr ⟨hm, hlater⟩
    · exact List.forall_mem_cons.mpr ⟨hheld, ih hlater⟩

theorem relies_corrections (session : Negotiated) (opened : List (FetchRow δ)) :
    Relies R CommitsWhole (EnvelopesOf opened) (corrections session opened) := by
  unfold corrections
  split
  · exact relies_pure fun row hrow => nomatch hrow
  · have hsettle : Relies R CommitsWhole (EnvelopesOf opened) (settleAcross session opened : Pass δ _) := by
      refine relies_bind (relies_fetchStructures _ _) fun answers _ => relies_pure ?_
      exact envelopesOf_takeSettled answers (opened, []) (fun row hrow => ⟨row, hrow, rfl⟩) (fun row hrow => nomatch hrow)
    exact relies_bind hsettle fun settled hsettled => relies_pure fun row hrow => hsettled row (List.mem_filter.mp hrow).1

theorem relies_scanGroup (hR : ∀ x, R x → Solicited x) (set : UidSet) :
    Relies R CommitsWhole (fun r => ∀ m ∈ r.1, Whole m) (scanGroup on uidValidity total chunkSize set : Pass δ _) := by
  have hbuilt : ∀ rows : List (FetchRow δ), (∀ row ∈ rows, row.HasEnvelope) →
      ∀ m ∈ rows.map fun row => messageFromFetch row on.mailbox uidValidity, Whole m := by
    intro rows hrows m hm
    obtain ⟨row, hrow, rfl⟩ := List.mem_map.mp hm
    exact hrows row hrow
  refine relies_bind (relies_fetch hR set) fun rows hrows => ?_
  refine relies_bind (relies_scanMessages ?_ (hbuilt rows hrows) fun m hm => nomatch hm) fun buf hbuf => ?_
  · intro buf m hbuf hm x hx
    rcases List.mem_append.mp hx with hx | hx
    · exact hbuf x hx
    · obtain rfl := List.mem_singleton.mp hx
      exact hm
  refine relies_bind (relies_corrections _ _) fun corrected hcorrected => ?_
  have hwhole : ∀ row ∈ corrected.reverse, row.HasEnvelope := by
    intro row hrow
    refine hcorrected.whole (fun row' hrow' => ?_) row (List.mem_reverse.mp hrow)
    exact hrows row' (List.mem_filter.mp hrow').1
  refine relies_bind (relies_scanMessages ?_ (hbuilt _ hwhole) hbuf) fun left hleft => relies_pure hleft
  exact fun buf m hbuf hm => whole_replaceHeld m hm hbuf

theorem whole_backfillEnd (present : List ProviderKey) (h : ∀ m ∈ messages, Whole m) :
    ∀ m ∈ (backfillEnd frontier isFresh total messages present).changed, Whole m := by
  unfold backfillEnd
  split
  · exact h
  · exact h

theorem relies_backfillScan (hR : ∀ x, R x → Solicited x) (present : List ProviderKey) : Relies R CommitsWhole (fun _ => True)
    (backfillScan on uidValidity frontier total chunkSize isFresh groups present : Pass δ _) := by
  induction groups generalizing present with
  | nil => exact relies_pure trivial
  | cons group groups ih =>
    refine relies_bind (relies_scanGroup hR _) fun scanned hscanned => ?_
    dsimp only
    split
    · exact relies_commit (whole_backfillEnd _ hscanned)
    · exact relies_bind (relies_commit hscanned) fun _ _ => ih _

theorem relies_backfill (hR : ∀ x, R x → Solicited x) (high : Nat) : Relies R CommitsWhole (fun _ => True)
    (backfill on data uidNext prior since high fetchBatch chunkSize : Pass δ _) := by
  have hgroups : Relies R CommitsWhole (fun _ => True) (backfillGroups high since fetchBatch : Pass δ _) := by
    unfold backfillGroups
    split
    · exact relies_pure trivial
    · split
      · exact relies_bind (relies_ask rfl) fun _ _ => relies_pure trivial
      · exact relies_pure trivial
  refine relies_bind hgroups fun found _ => ?_
  dsimp only
  split
  · exact relies_commit (whole_backfillEnd _ fun m hm => nomatch hm)
  · exact relies_backfillScan hR _

theorem relies_commitAll {chunks : List (EmailChunk (Content δ))} (h : ∀ chunk ∈ chunks, ∀ m ∈ chunk.changed, Whole m) :
    Relies R CommitsWhole (fun _ => True) (commitAll chunks) := by
  induction chunks with
  | nil => exact relies_pure trivial
  | cons chunk chunks ih =>
    obtain ⟨hfirst, hlater⟩ := List.forall_mem_cons.mp h
    exact relies_bind (relies_commit hfirst) fun _ _ => ih hlater

theorem relies_drainPages (h : (∀ x, R x → Solicited x) ∨ Guarded on.session prior data) (fuel : Nat)
    (mode : Option PassMode) (total token : Option Nat) : Relies R CommitsWhole (fun _ => True)
    (drainPages on data uidNext prior since fetchBatch chunkSize fuel mode total token : Pass δ _) := by
  induction fuel generalizing mode total token with
  | zero => exact relies_pure trivial
  | succ fuel ih =>
    refine relies_bind (relies_syncPageSelected h) fun page hpage => ?_
    have hchunks : ∀ chunk ∈ splitPage (mode.getD page.kind.mode) page.changed page.patched page.removed page.present
        (total.or page.total) chunkSize, ∀ m ∈ chunk.changed, Whole m := fun chunk hchunk m hm =>
      hpage m ((mem_splitPage _ _ _ _ _ _ _ hchunk).2.2.subset hm)
    refine relies_bind (relies_commitAll hchunks) fun _ _ => ?_
    split
    · apply relies_commit
      intro m hm
      unfold endOfPages at hm
      split at hm
      · exact nomatch hm
      · exact nomatch hm
    · exact ih _ _ _

/-- A pass commits only messages from rows with envelopes, where its answers have no other rows or it goes on from all
of the mailbox. -/
theorem relies_streamEmail {cursor : Option SyncState} {window : SyncWindow}
    (h : (∀ x, R x → Solicited x) ∨ ∀ x, R x → Continues on.session (cursor.bind MailboxCursor.current) x) :
    Relies R CommitsWhole (fun _ => True) (streamEmail on cursor window fetchBatch chunkSize : Pass δ _) := by
  have hselect : Relies R CommitsWhole
      (fun data => (∀ x, R x → Solicited x) ∨ Guarded on.session (cursor.bind MailboxCursor.current) data)
      (Pass.select on.session.qresync : Pass δ _) := by
    refine relies_request (commitsWhole_of_none rfl) fun data hdata => ?_
    exact h.imp id fun hcontinues => hcontinues _ hdata _ data rfl
  refine relies_bind hselect fun data hdata => ?_
  have hnext : Relies R CommitsWhole (fun _ => True) (effectiveUidNext data : Pass δ _) := by
    unfold effectiveUidNext
    split
    · exact relies_pure trivial
    · split
      · exact relies_pure trivial
      · exact relies_bind (relies_ask rfl) fun _ _ => relies_pure trivial
  refine relies_bind hnext fun uidNext _ => ?_
  dsimp only
  rcases hdata with hR | hguarded
  · split
    · exact relies_backfill hR _
    · exact relies_drainPages (.inl hR) _ _ _ _
  · have hpages : backfillFrom (cursor.bind MailboxCursor.current) data.uidValidity uidNext = none := by
      obtain ⟨p, hp, hvalidity, hlow, -⟩ := hguarded
      rw [hp]
      show (if p.uidValidity = data.uidValidity then p.backfillLow.map fun low => low - 1 else none) = none
      rw [if_pos hvalidity, hlow]
      rfl
    rw [hpages]
    exact relies_drainPages (.inr hguarded) _ _ _ _

/-- In every run of a pass whose answers have only the rows asked for, or that goes on from all of the mailbox whatever
rows it gets, every message that is committed was built from a row with an envelope. -/
theorem messages_have_envelopes {cursor : Option SyncState} {window : SyncWindow}
    {t : List (Exchange (Request δ) Request.Answer)} (h : Runs (streamEmail on cursor window fetchBatch chunkSize) t ())
    (ht : (∀ x ∈ t, Solicited x) ∨ ∀ x ∈ t, Continues on.session (cursor.bind MailboxCursor.current) x) :
    ∀ chunk, ⟨.commit chunk, ()⟩ ∈ t → ∀ m ∈ chunk.changed, Whole m := by
  intro chunk hchunk
  rcases ht with hsolicited | hcontinues
  · have hrun := relies_runs (relies_streamEmail (.inl fun _ hx => hx)) h hsolicited
    exact hrun.2 _ hchunk chunk rfl
  · have hrun := relies_runs (relies_streamEmail (.inr fun _ hx => hx)) h hcontinues
    exact hrun.2 _ hchunk chunk rfl

/-! ### A mailbox of one message -/

def oneMailbox : Binding := ⟨⟨true, false, none⟩, "INBOX"⟩

def oneSelected : SelectData := ⟨1, some 2, some 5, 1⟩

def solicitedRow : FetchRow Unit := ⟨1, [], none, some (), some false⟩

/-- What a server sends where another client reads the message meanwhile. -/
def flagsRow : FetchRow Unit := ⟨1, ["\\Seen"], none, none, none⟩

def firstPass (rows : List (FetchRow Unit)) : List (Exchange (Request Unit) Request.Answer) :=
  [⟨.select true, oneSelected⟩, ⟨.fetch [.span 1 1], rows⟩,
    ⟨.commit (backfillEnd (backfillFrontier none oneSelected 2) true (some 1)
      (rows.map fun row => messageFromFetch row "INBOX" 1) (rows.map fun row => messageKey "INBOX" 1 row.uid)), ()⟩]

theorem runs_scanMessages (place : List (Message (Content δ)) → Message (Content δ) → List (Message (Content δ)))
    (messages buf : List (Message (Content δ))) :
    Runs (scanMessages total 0 place messages buf) [] (messages.foldl place buf) := by
  induction messages generalizing buf with
  | nil => exact runs_pure.mpr ⟨rfl, rfl⟩
  | cons m messages ih => exact runs_bind.mpr ⟨[], place buf m, [], rfl, runs_pure.mpr ⟨rfl, rfl⟩, ih _⟩

theorem foldl_push (messages buf : List (Message (Content δ))) :
    messages.foldl (fun buf m => buf ++ [m]) buf = buf ++ messages := by
  induction messages generalizing buf with
  | nil => rw [List.foldl_nil, List.append_nil]
  | cons m messages ih => rw [List.foldl_cons, ih, List.append_assoc, List.singleton_append]

theorem runs_firstPass (rows : List (FetchRow Unit)) (hrows : rows.filter needsStructure = []) :
    Runs (streamEmail oneMailbox none .full 0 0) (firstPass rows) () := by
  have hscan : Runs (scanGroup oneMailbox 1 (some 1) 0 [.span 1 1]) [⟨.fetch [.span 1 1], rows⟩]
      (rows.map fun row => messageFromFetch row "INBOX" 1, rows.map fun row => messageKey "INBOX" 1 row.uid) := by
    unfold scanGroup
    refine runs_bind.mpr ⟨[_], rows, [], rfl, runs_request.mpr rfl, ?_⟩
    have hpushed := @runs_scanMessages Unit (some 1) (fun buf m => buf ++ [m])
      (rows.map fun row => messageFromFetch row "INBOX" 1) []
    rw [foldl_push, List.nil_append] at hpushed
    refine runs_bind.mpr ⟨[], _, [], rfl, hpushed, ?_⟩
    rw [hrows]
    refine runs_bind.mpr ⟨[], [], [], rfl, runs_pure.mpr ⟨rfl, rfl⟩, ?_⟩
    refine runs_bind.mpr ⟨[], _, [], rfl, runs_pure.mpr ⟨rfl, rfl⟩, runs_pure.mpr ⟨rfl, ?_⟩⟩
    rw [List.map_map]
    rfl
  unfold streamEmail
  refine runs_bind.mpr ⟨[_], oneSelected, _, rfl, runs_request.mpr rfl, ?_⟩
  refine runs_bind.mpr ⟨[], 2, _, rfl, runs_pure.mpr ⟨rfl, rfl⟩, ?_⟩
  show Runs (backfill oneMailbox oneSelected 2 none none 1 0 0) _ ()
  unfold backfill
  refine runs_bind.mpr ⟨[], ([([.span 1 1], 1)], none), _, rfl, runs_pure.mpr ⟨rfl, rfl⟩, ?_⟩
  show Runs (backfillScan oneMailbox 1 (backfillFrontier none oneSelected 2) (some 1) 0 true [([.span 1 1], 1)] []) _ ()
  unfold backfillScan
  exact runs_bind.mpr ⟨_, _, _, rfl, hscan, runs_request.mpr rfl⟩

theorem solicited_firstPass : ∀ x ∈ firstPass [solicitedRow], Solicited x := by
  intro x hx set rows he row hrow
  subst he
  rcases List.mem_cons.mp hx with he | hx
  · cases he
  · rcases List.mem_cons.mp hx with he | hx
    · cases he
      obtain rfl := List.mem_singleton.mp hrow
      rfl
    · cases List.mem_singleton.mp hx

theorem messages_have_envelopes_one : Whole (messageFromFetch solicitedRow "INBOX" 1) :=
  messages_have_envelopes (runs_firstPass [solicitedRow] rfl) (.inl solicited_firstPass) _
    (List.mem_cons_of_mem _ (List.mem_cons_of_mem _ List.mem_cons_self)) _ List.mem_cons_self

theorem flags_row_becomes_message : Runs (streamEmail oneMailbox none .full 0 0) (firstPass [solicitedRow, flagsRow]) () ∧
    ∃ chunk, ⟨.commit chunk, ()⟩ ∈ firstPass [solicitedRow, flagsRow] ∧ ∃ m ∈ chunk.changed, ¬Whole m := by
  refine ⟨runs_firstPass [solicitedRow, flagsRow] rfl, _, List.mem_cons_of_mem _ (List.mem_cons_of_mem _ List.mem_cons_self),
    messageFromFetch flagsRow "INBOX" 1, ?_, ?_⟩
  · exact List.mem_cons_of_mem _ List.mem_cons_self
  · exact Bool.false_ne_true

end Passes

end Imap
end SyncEngine
