import SyncEngine.Mail.Stream

/-!
# Derived rows of live objects

A reader takes a derived row to mean that its object is stored.  The rows of a batch come from its own
objects and are written after its removals, so a batch that both writes and removes an object leaves
rows behind that belong to nothing.
-/

namespace SyncEngine
namespace Mail

variable {γ : Type}

/-- A batch for one scope, with the rows derived from it. -/
structure Batch (γ : Type) where
  update : SyncUpdate γ MailStateChange
  derived : DerivedWrite γ
  next : Option SyncState

def DerivedWrite.rowKeys (d : DerivedWrite γ) : List ProviderKey :=
  d.fts.map FtsRow.key ++ d.occurrences.map OccurrenceRow.event ++ d.messages.map MailRow.key ++
    d.msgidRefs.map MailRefRow.key ++ d.addresses.map MailAddressRow.key ++
    d.memberships.map MembershipRow.key ++ d.eventIndex.map EventIndexRow.key ++
    d.participants.map EventParticipantRow.key

def Batch.Projected (b : Batch γ) : Prop :=
  ∀ k ∈ b.derived.rowKeys, k ∈ b.update.changed.map Prod.fst

def Batch.Consistent (b : Batch γ) : Prop :=
  match b.update with
  | .delta changed _ removed => ∀ k ∈ changed.map Prod.fst, k ∉ removed
  | .snapshot objects present => ∀ k ∈ objects.map Prod.fst, k ∈ present

/-- Every row in every table stands under a key with the property. -/
structure RowsUnder (P : ProviderKey → Prop) (cell : ScopeCell γ) : Prop where
  fts : ∀ k, (cell.fts.get? k).isSome → P k
  occurrences : ∀ k, (cell.occurrences.get? k).isSome → P k
  messages : ∀ k, (cell.messages.get? k).isSome → P k
  refs : ∀ k, (cell.refs.get? k).isSome → P k
  addresses : ∀ k, (cell.addresses.get? k).isSome → P k
  memberships : ∀ k, (cell.memberships.get? k).isSome → P k
  eventIndex : ∀ k, (cell.eventIndex.get? k).isSome → P k
  participants : ∀ k, (cell.participants.get? k).isSome → P k

def ScopeCell.stored (cell : ScopeCell γ) (k : ProviderKey) : Prop :=
  (cell.objects.get? k).isSome

/-- Every derived row belongs to an object that is stored. -/
def RowsLive (cell : ScopeCell γ) : Prop := RowsUnder cell.stored cell

/-! ## Tables -/

section Tables

variable {α : Type} {t : Keyed ProviderKey α} {P : ProviderKey → Prop}

theorem under_put (h : ∀ k, (t.get? k).isSome → P k) {key : ProviderKey} (hkey : P key) (a : α) :
    ∀ k, ((t.put key a).get? k).isSome → P k := by
  intro k hk
  rw [Keyed.get?_put] at hk
  by_cases e : k = key
  · rwa [e]
  · rw [if_neg e] at hk
    exact h k hk

theorem under_delete (h : ∀ k, (t.get? k).isSome → P k) (key : ProviderKey) :
    ∀ k, ((t.filterRows fun j _ => j ≠ key).get? k).isSome → P k ∧ k ≠ key := by
  intro k hk
  rw [Keyed.get?_filterRows] at hk
  obtain ⟨a, ha⟩ := Option.isSome_iff_exists.mp hk
  obtain ⟨hget, hne⟩ := Option.filter_eq_some_iff.mp ha
  exact ⟨h k (by rw [hget]; rfl), by simpa using hne⟩

theorem under_modify (h : ∀ k, (t.get? k).isSome → P k) (key : ProviderKey) (f : α → α) :
    ∀ k, ((t.modify key f).get? k).isSome → P k := by
  intro k hk
  rw [Keyed.get?_modify] at hk
  by_cases e : k = key
  · rw [if_pos e, Option.isSome_map] at hk
    exact h k hk
  · rw [if_neg e] at hk
    exact h k hk

theorem under_replaceRows {ρ : Type} {t : Keyed ProviderKey (List ρ)} {key : ρ → ProviderKey}
    (h : ∀ k, (t.get? k).isSome → P k) {rows : List ρ} (hrows : ∀ r ∈ rows, P (key r)) :
    ∀ k, ((ScopeCell.replaceRows t key rows).get? k).isSome → P k := by
  have hgroup : ∀ r ∈ (Keyed.group rows key).rows, P r.1 := by
    intro r hr
    have hget := (Keyed.get?_eq_some_iff (Keyed.group rows key)).mpr hr
    obtain ⟨-, a, ha, hka⟩ := (Keyed.get?_group rows key r.1).mp hget
    rw [← hka]
    exact hrows a ha
  unfold ScopeCell.replaceRows
  generalize (Keyed.group rows key).rows = groups at hgroup
  induction groups generalizing t with
  | nil => exact h
  | cons g groups ih =>
    exact ih (under_put h (hgroup g List.mem_cons_self) g.2) fun r hr => hgroup r (List.mem_cons_of_mem g hr)

end Tables

namespace RowsUnder

variable {P Q : ProviderKey → Prop} {cell : ScopeCell γ}

theorem mono (h : RowsUnder P cell) (himp : ∀ k, P k → Q k) : RowsUnder Q cell where
  fts := fun k hk => himp k (h.fts k hk)
  occurrences := fun k hk => himp k (h.occurrences k hk)
  messages := fun k hk => himp k (h.messages k hk)
  refs := fun k hk => himp k (h.refs k hk)
  addresses := fun k hk => himp k (h.addresses k hk)
  memberships := fun k hk => himp k (h.memberships k hk)
  eventIndex := fun k hk => himp k (h.eventIndex k hk)
  participants := fun k hk => himp k (h.participants k hk)

theorem new : RowsUnder P (ScopeCell.new : ScopeCell γ) := by
  constructor <;> exact fun k hk => absurd hk (by simp [ScopeCell.new])

theorem withObjects (h : RowsUnder P cell) (objects : Keyed ProviderKey γ) :
    RowsUnder P { cell with objects := objects } :=
  ⟨h.fts, h.occurrences, h.messages, h.refs, h.addresses, h.memberships, h.eventIndex, h.participants⟩

theorem setCursor (h : RowsUnder P cell) (next : Option SyncState) : RowsUnder P (cell.setCursor next) :=
  ⟨h.fts, h.occurrences, h.messages, h.refs, h.addresses, h.memberships, h.eventIndex, h.participants⟩

theorem removeDerived (h : RowsUnder P cell) (key : ProviderKey) :
    RowsUnder (fun k => P k ∧ k ≠ key) (cell.removeDerived key) where
  fts := under_delete h.fts key
  occurrences := under_delete h.occurrences key
  messages := under_delete h.messages key
  refs := under_delete h.refs key
  addresses := under_delete h.addresses key
  memberships := under_delete h.memberships key
  eventIndex := under_delete h.eventIndex key
  participants := under_delete h.participants key

theorem resetOccurrences (h : RowsUnder P cell) (key : ProviderKey) : RowsUnder P (cell.resetOccurrences key) :=
  { h with occurrences := fun k hk => (under_delete h.occurrences key k hk).1 }

theorem putFts (h : RowsUnder P cell) {row : FtsRow γ} (hkey : P row.key) : RowsUnder P (cell.putFts row) :=
  { h with fts := under_put h.fts hkey row.content }

theorem putOccurrence (h : RowsUnder P cell) (kind : StoreKind) {occ : OccurrenceRow}
    (hkey : P occ.event) : RowsUnder P (cell.putOccurrence kind occ) :=
  { h with occurrences := under_put h.occurrences hkey _ }

theorem putMessage (h : RowsUnder P cell) {row : MailRow γ} (hkey : P row.key) : RowsUnder P (cell.putMessage row) :=
  { h with messages := under_put h.messages hkey _ }

theorem putEventIndex (h : RowsUnder P cell) {row : EventIndexRow} (hkey : P row.key) :
    RowsUnder P (cell.putEventIndex row) :=
  { h with eventIndex := under_put h.eventIndex hkey row }

theorem assignThread (h : RowsUnder P cell) (row : MailThreadRow) : RowsUnder P (cell.assignThread row) :=
  { h with messages := under_modify h.messages row.key _ }

theorem applyStateChange (h : RowsUnder P cell) (change : MailStateRow) : RowsUnder P (cell.applyStateChange change) := by
  unfold ScopeCell.applyStateChange
  cases hrow : cell.messages.get? change.key with
  | none => exact h
  | some row =>
    have hkey : P change.key := h.messages change.key (by rw [hrow]; rfl)
    exact { h with
      messages := under_put h.messages hkey _
      memberships := under_put h.memberships hkey _ }

theorem foldl {ρ : Type} {step : ScopeCell γ → ρ → ScopeCell γ} {rows : List ρ}
    (hstep : ∀ cell, ∀ r ∈ rows, RowsUnder P cell → RowsUnder P (step cell r))
    (h : RowsUnder P cell) : RowsUnder P (rows.foldl step cell) := by
  induction rows generalizing cell with
  | nil => exact h
  | cons r rows ih =>
    exact ih (fun cell r' hr' => hstep cell r' (List.mem_cons_of_mem r hr')) (hstep cell r List.mem_cons_self h)

theorem applyDerived (h : RowsUnder P cell) (kind : StoreKind) {derived : DerivedWrite γ}
    (hkeys : ∀ k ∈ derived.rowKeys, P k) : RowsUnder P (cell.applyDerived kind derived) := by
  unfold ScopeCell.applyDerived
  simp only [DerivedWrite.rowKeys, List.mem_append, or_imp, forall_and, List.forall_mem_map] at hkeys
  obtain ⟨⟨⟨⟨⟨⟨⟨hfts, hocc⟩, hmsg⟩, hrefs⟩, haddr⟩, hmem⟩, hindex⟩, hpart⟩ := hkeys
  have h₁ := h.foldl fun cell r (_ : r ∈ derived.removed) hc =>
    (hc.removeDerived r).mono fun _ hk => hk.1
  have h₂ := h₁.foldl fun cell r (_ : r ∈ derived.resetOccurrences) hc => hc.resetOccurrences r
  have h₃ := h₂.foldl fun cell r hr hc => hc.putFts (hfts r hr)
  have h₄ := h₃.foldl fun cell r hr hc => hc.putOccurrence kind (hocc r hr)
  have h₅ := h₄.foldl fun cell r hr hc => hc.putMessage (hmsg r hr)
  have h₆ := h₅.foldl fun cell r (_ : r ∈ derived.stateChanges) hc => hc.applyStateChange r
  have h₇ := h₆.foldl fun cell r (_ : r ∈ derived.threadAssignments) hc => hc.assignThread r
  have h₈ := h₇.foldl fun cell r hr hc => hc.putEventIndex (hindex r hr)
  exact { h₈ with
    refs := under_replaceRows h₈.refs hrefs
    addresses := under_replaceRows h₈.addresses haddr
    memberships := under_replaceRows h₈.memberships hmem
    participants := under_replaceRows h₈.participants hpart }

end RowsUnder

/-! ## Applying a batch -/

section Apply

variable {cell : ScopeCell γ} {k : ProviderKey}

theorem RowsLive.upsertAll (h : RowsLive cell) (changed : List (ProviderKey × γ)) :
    RowsLive (changed.foldl ScopeCell.upsertObject cell) := by
  have hrows : RowsUnder cell.stored (changed.foldl ScopeCell.upsertObject cell) :=
    RowsUnder.foldl (fun _ _ _ hc => hc.withObjects _) h
  apply hrows.mono
  intro k hk
  show ((changed.foldl ScopeCell.upsertObject cell).objects.get? k).isSome
  rw [ScopeCell.get?_objects_upsertAll, Option.isSome_or]
  exact Bool.or_eq_true_iff.mpr (.inr hk)

theorem RowsLive.tombstone (h : RowsLive cell) (key : ProviderKey) : RowsLive (cell.tombstone key) := by
  have hrows : RowsUnder (fun k => cell.stored k ∧ k ≠ key) (cell.tombstone key) := (h.withObjects _).removeDerived key
  apply hrows.mono
  intro k ⟨hk, hne⟩
  show ((cell.tombstone key).objects.get? k).isSome
  rw [ScopeCell.get?_objects_tombstone, if_neg (Ne.symm hne)]
  exact hk

theorem RowsLive.tombstoneAll (h : RowsLive cell) (keys : List ProviderKey) :
    RowsLive (keys.foldl ScopeCell.tombstone cell) := by
  induction keys generalizing cell with
  | nil => exact h
  | cons key keys ih => exact ih (h.tombstone key)

theorem RowsLive.applyUpdate (h : RowsLive cell) (update : SyncUpdate γ MailStateChange) :
    RowsLive (cell.applyUpdate update).1 := by
  cases update with
  | delta changed patched removed =>
    show RowsLive ((changed.foldl ScopeCell.upsertObject cell).tombstoneCounted removed).1
    rw [ScopeCell.tombstoneCounted_fst]
    exact (h.upsertAll changed).tombstoneAll removed
  | snapshot objects present =>
    exact (h.upsertAll objects).tombstoneAll _

theorem stored_of_changed {b : Batch γ} (hb : b.Consistent)
    (hk : k ∈ b.update.changed.map Prod.fst) : (cell.applyUpdate b.update).1.stored k := by
  obtain ⟨o, ho, rfl⟩ := List.mem_map.mp hk
  have hlast : ∀ changed : List (ProviderKey × γ), o ∈ changed →
      ((changed.foldl ScopeCell.upsertObject cell).objects.get? o.1).isSome := by
    intro changed ho
    have hmem : o ∈ changed.filter fun o' => o'.1 = o.1 := List.mem_filter.mpr ⟨ho, by simp⟩
    rw [ScopeCell.get?_objects_upsertAll, Option.isSome_or, Option.isSome_map,
      List.getLast?_isSome.mpr (List.ne_nil_of_mem hmem)]
    rfl
  obtain ⟨update, derived, next⟩ := b
  cases update with
  | delta changed patched removed =>
    have hkeep : o.1 ∉ removed := hb o.1 hk
    show (((changed.foldl ScopeCell.upsertObject cell).tombstoneCounted removed).1.objects.get? o.1).isSome
    rw [ScopeCell.tombstoneCounted_fst, ScopeCell.get?_objects_tombstoneAll, if_neg hkeep]
    exact hlast changed ho
  | snapshot objects present =>
    have hpresent : o.1 ∈ present := hb o.1 hk
    show ((List.foldl ScopeCell.tombstone (objects.foldl ScopeCell.upsertObject cell) _).objects.get? o.1).isSome
    rw [ScopeCell.get?_objects_tombstoneAll, if_neg]
    · exact hlast objects ho
    · intro habsent
      exact (ScopeCell.mem_absent.mp habsent).2 hpresent

theorem RowsLive.apply (h : RowsLive cell) (kind : StoreKind) {b : Batch γ} (hp : b.Projected)
    (hc : b.Consistent) : RowsLive (cell.apply kind b.update b.derived b.next).1 := by
  have hupdate := h.applyUpdate b.update
  have hrows : RowsUnder (cell.applyUpdate b.update).1.stored
      ((cell.applyUpdate b.update).1.applyDerived kind b.derived) :=
    RowsUnder.applyDerived hupdate kind fun k hk => stored_of_changed hc (hp k hk)
  have hmono := hrows.mono (Q := ((cell.applyUpdate b.update).1.applyDerived kind b.derived).stored) fun k hk => by
      unfold ScopeCell.stored at hk ⊢
      rwa [ScopeCell.objects_applyDerived]
  exact hmono.setCursor b.next

end Apply

/-! ## Runs -/

def ScopeCell.applyAll (kind : StoreKind) (cell : ScopeCell γ) (batches : List (Batch γ)) :
    ScopeCell γ :=
  batches.foldl (fun cell b => (cell.apply kind b.update b.derived b.next).1) cell

/-- Rows are rows of live objects in every state that batches reach, when the rows of each come from
its own objects and it writes none that it removes. -/
theorem rows_stay_live (kind : StoreKind) (batches : List (Batch γ))
    (hprojected : ∀ b ∈ batches, b.Projected) (hconsistent : ∀ b ∈ batches, b.Consistent) :
    ∀ reached, reached <+: batches → RowsLive (ScopeCell.new.applyAll kind reached) := by
  intro reached hreached
  have hall : ∀ b ∈ reached, b.Projected ∧ b.Consistent := fun b hb =>
    ⟨hprojected b (hreached.subset hb), hconsistent b (hreached.subset hb)⟩
  have hstart : RowsLive (ScopeCell.new : ScopeCell γ) := RowsUnder.new
  generalize (ScopeCell.new : ScopeCell γ) = cell at hstart ⊢
  clear hreached
  induction reached generalizing cell with
  | nil => exact hstart
  | cons b rest ih =>
    have hb := hall b List.mem_cons_self
    exact ih (fun b' hb' => hall b' (List.mem_cons_of_mem b hb')) _ (hstart.apply kind hb.1 hb.2)

namespace Sample

def greeting : Message Unit where
  key := "m1"
  content := ()
  date := none
  threadId := none
  preview := none
  mailboxes := ["INBOX"]
  filed := by decide
  keywords := ["$seen"]
  revisions := .none
  lastModified := none

def arrives : Batch Unit :=
  ⟨.delta [(greeting.key, greeting.content)] [] [], deriveMessages [greeting], some "c1"⟩

/-- The message is gone from the server. -/
def gone : Batch Unit := ⟨.snapshot [] [], .empty, some "c2"⟩

/-- The message arrives and is removed between two cursors, and the batch says both. -/
def arrivesAndGoes : Batch Unit :=
  ⟨.delta [(greeting.key, greeting.content)] [] [greeting.key], deriveMessages [greeting],
    some "c1"⟩

end Sample

open Sample in
theorem rows_stay_live_arrives : RowsLive (ScopeCell.new.applyAll .durable [arrives]) ∧
      (ScopeCell.new.applyAll .durable [arrives]).stored "m1" ∧
      RowsLive (ScopeCell.new.applyAll .durable [arrives, gone]) := by
  have hprojected : ∀ b ∈ [arrives, gone], b.Projected := by
    intro b hb
    rcases List.mem_cons.mp hb with rfl | hb
    · unfold Batch.Projected
      decide
    · rw [List.mem_singleton.mp hb]
      unfold Batch.Projected
      decide
  have hconsistent : ∀ b ∈ [arrives, gone], b.Consistent := by
    intro b hb
    rcases List.mem_cons.mp hb with rfl | hb
    · show ∀ k ∈ _, k ∉ _
      decide
    · rw [List.mem_singleton.mp hb]
      show ∀ k ∈ _, k ∈ _
      decide
  have hlive := rows_stay_live .durable [arrives, gone] hprojected hconsistent
  exact ⟨hlive [arrives] (List.prefix_append _ [gone]), by unfold ScopeCell.stored; decide, hlive _ (List.prefix_refl _)⟩

open Sample in
/-- The rows of a message that is not stored stay behind, in either store. -/
theorem arrivesAndGoes_orphaned : arrivesAndGoes.Projected ∧
      ∀ kind, ¬RowsLive (ScopeCell.new.applyAll kind [arrivesAndGoes]) := by
  constructor
  · unfold Batch.Projected
    decide
  · intro kind h
    have hrow : ((ScopeCell.new.applyAll kind [arrivesAndGoes]).messages.get? "m1").isSome := by
      cases kind <;> decide
    have hstored := h.messages "m1" hrow
    have hgone : (ScopeCell.new.applyAll kind [arrivesAndGoes]).objects.get? "m1" = none := by
      cases kind <;> decide
    rw [ScopeCell.stored, hgone] at hstored
    cases hstored

end Mail
end SyncEngine
