import Mathlib
import SyncEngine.Mail.Stream

/-!
# What a provider has told of one key

The thread and the preview of a message row are the engine's own.  What remains under a key is what the provider has
told of it, and a commit acts on it key by key: a message sent whole replaces all of it, a change of state moves a row
that is there, and a removal clears it.
-/

namespace SyncEngine
namespace Mail

variable {γ : Type}

/-- A row without the columns the engine fills. -/
def MailRow.told (row : MailRow γ) : MailRow γ := { row with threadId := none, preview := none }

structure Told (γ : Type) where
  object : Option γ
  row : Option (MailRow γ)
  memberships : Finset MembershipRow
deriving DecidableEq

namespace Told

def nothing : Told γ := ⟨none, none, ∅⟩

def replaceKind (key : ProviderKey) (kind : MembershipKind) (values : List String)
    (rows : Finset MembershipRow) : Finset MembershipRow :=
  rows.filter (fun m => m.kind ≠ kind) ∪ (values.map fun v => (⟨key, kind, v⟩ : MembershipRow)).toFinset

def changedMemberships (change : MailStateRow) (rows : Finset MembershipRow) :
    Finset MembershipRow :=
  let rows := replaceKind change.key .keyword change.keywords rows
  match change.mailboxes with
  | none => rows
  | some mailboxes => replaceKind change.key .mailbox mailboxes rows

def change (s : Told γ) (c : MailStateRow) : Told γ :=
  match s.row with
  | none => s
  | some row =>
    { s with
      row := some (ScopeCell.withState row c)
      memberships := changedMemberships c s.memberships }

def rowsOf (sent : List (Message γ)) : Finset MembershipRow :=
  (sent.flatMap Message.membershipRows).toFinset

/-- What stands under the key of messages sent whole, and removed in the same commit or not. -/
def asSent (sent : List (Message γ)) (removed : Bool) : Told γ where
  object := if removed then none else sent.getLast?.map Message.content
  row := sent.getLast?.map fun m => m.row.told
  memberships := rowsOf sent

/-- One commit at one key: the messages it sends whole, the changes of state it carries, and whether
it removes what is there by then. -/
def commit (s : Told γ) (sent : List (Message γ)) (changes : List MailStateRow)
    (removes : Option γ → Bool) : Told γ :=
  let object := (sent.getLast?.map Message.content).or s.object
  let s : Told γ := if removes object then nothing else { s with object := object }
  let s := { s with row := (sent.getLast?.map fun m => m.row.told).or s.row }
  let s := changes.foldl change s
  if sent = [] then s else { s with memberships := rowsOf sent }

end Told

def ScopeCell.told (cell : ScopeCell γ) (k : ProviderKey) : Told γ where
  object := cell.objects.get? k
  row := (cell.messages.get? k).map MailRow.told
  memberships := ((cell.memberships.get? k).getD []).toFinset

/-! ## The steps of a commit -/

namespace ScopeCell

variable (cell : ScopeCell γ)

theorem told_tombstone (key k : ProviderKey) :
    (cell.tombstone key).told k = if key = k then Told.nothing else cell.told k := by
  have hobjects := get?_objects_tombstone cell key k
  by_cases h : key = k
  · rw [if_pos h] at hobjects ⊢
    subst h
    simp [told, Told.nothing, tombstone, removeDerived, Keyed.get?_filterRows]
  · rw [if_neg h] at hobjects ⊢
    have hkeep : ∀ {α : Type} (t : Keyed ProviderKey α), (t.filterRows fun j _ => j ≠ key).get? k = t.get? k := by
      intro α t
      rw [Keyed.get?_filterRows]
      cases t.get? k with
      | none => rfl
      | some a => simp [Ne.symm h]
    simp only [told, hobjects]
    show Told.mk _ (((cell.messages.filterRows _).get? k).map _) (((cell.memberships.filterRows
      _).get? k).getD []).toFinset = _
    rw [hkeep, hkeep]

theorem told_tombstoneAll (keys : List ProviderKey) (k : ProviderKey) :
    (keys.foldl tombstone cell).told k = if k ∈ keys then Told.nothing else cell.told k :=
  foldl_clear told Told.nothing told_tombstone keys cell k

theorem told_upsertAll (changed : List (ProviderKey × γ)) (k : ProviderKey) :
    (changed.foldl upsertObject cell).told k = { cell.told k with
        object := ((changed.filter fun o => o.1 = k).getLast?.map Prod.snd).or (cell.objects.get? k) } := by
  have hmessages := foldl_frame messages upsertObject (fun _ _ => rfl) changed cell
  have hmemberships := foldl_frame memberships upsertObject (fun _ _ => rfl) changed cell
  unfold told
  rw [get?_objects_upsertAll, hmessages, hmemberships]

theorem told_putMessage (row : MailRow γ) (k : ProviderKey) : (cell.putMessage row).told k =
      if row.key = k then { cell.told k with row := some row.told } else cell.told k := by
  unfold told putMessage
  show Told.mk _ (((cell.messages.put _ _).get? k).map _) _ = _
  rw [Keyed.get?_put]
  by_cases h : row.key = k
  · rw [if_pos h, if_pos h.symm]
    rfl
  · rw [if_neg h, if_neg (Ne.symm h)]

theorem toFinset_replaceKind (key : ProviderKey) (kind : MembershipKind) (values : List String)
    (rows : List MembershipRow) :
    (replaceKind key kind values rows).toFinset = Told.replaceKind key kind values rows.toFinset := by
  simp [replaceKind, Told.replaceKind, List.toFinset_filter]

theorem toFinset_changedMemberships (change : MailStateRow) (rows : List MembershipRow) :
    (changedMemberships change rows).toFinset = Told.changedMemberships change rows.toFinset := by
  unfold changedMemberships Told.changedMemberships
  cases change.mailboxes with
  | none => exact toFinset_replaceKind _ _ _ _
  | some mailboxes => simp only [toFinset_replaceKind]

theorem told_applyStateChange (c : MailStateRow) (k : ProviderKey) :
    (cell.applyStateChange c).told k = if c.key = k then (cell.told k).change c else cell.told k := by
  unfold applyStateChange
  cases hrow : cell.messages.get? c.key with
  | none =>
    by_cases h : c.key = k
    · subst h
      simp [told, Told.change, hrow]
    · rw [if_neg h]
  | some row =>
    unfold told
    by_cases h : c.key = k
    · subst h
      simp only [Told.change, hrow, Option.map_some, Keyed.get?_put, if_true, Option.getD_some,
        toFinset_changedMemberships]
      rfl
    · simp only [Keyed.get?_put, if_neg (Ne.symm h), if_neg h]

theorem get?_replaceRows {ρ : Type} (table : Keyed ProviderKey (List ρ)) (key : ρ → ProviderKey)
    (rows : List ρ) (k : ProviderKey) :
    (replaceRows table key rows).get? k =
      if (rows.filter fun r => key r = k) = [] then table.get? k
      else some (rows.filter fun r => key r = k) := by
  unfold replaceRows
  rw [Keyed.get?_foldl_put]
  by_cases h : (rows.filter fun r => key r = k) = []
  · have hnone : (Keyed.group rows key).get? k = none := by
      rw [Keyed.get?_group_eq_none]
      intro r hr
      simpa using List.filter_eq_nil_iff.mp h r hr
    rw [if_pos h, hnone, Option.none_or]
  · obtain ⟨r, hr⟩ := List.exists_mem_of_ne_nil _ h
    obtain ⟨hr, hk⟩ := List.mem_filter.mp hr
    have hsome := (Keyed.get?_group rows key k).mpr ⟨rfl, r, hr, by simpa using hk⟩
    rw [if_neg h, hsome, Option.some_or]

end ScopeCell

/-! ## The whole commit -/

def SyncUpdate.removesAt {ω π : Type} (update : SyncUpdate ω π) (k : ProviderKey)
    (object : Option γ) : Bool :=
  match update with
  | .delta _ _ removed => decide (k ∈ removed)
  | .snapshot _ present => object.isSome && decide (k ∉ present)

namespace ScopeCell

theorem told_applyUpdate {π : Type} (cell : ScopeCell γ) (update : SyncUpdate γ π) (k : ProviderKey) :
    (cell.applyUpdate update).1.told k =
      let object := ((update.changed.filter fun o => o.1 = k).getLast?.map Prod.snd).or
        (cell.objects.get? k)
      if update.removesAt k object then Told.nothing
      else { cell.told k with object := object } := by
  cases update with
  | delta changed patched removed =>
    show ((changed.foldl upsertObject cell).tombstoneCounted removed).1.told k = _
    rw [tombstoneCounted_fst, told_tombstoneAll, told_upsertAll]
    simp only [SyncUpdate.changed, SyncUpdate.removesAt, decide_eq_true_eq]
  | snapshot objects present =>
    show (List.foldl tombstone (objects.foldl upsertObject cell) _).told k = _
    rw [told_tombstoneAll, told_upsertAll]
    simp only [SyncUpdate.changed, SyncUpdate.removesAt, mem_absent, get?_objects_upsertAll,
      Bool.and_eq_true, decide_eq_true_eq]

theorem told_congr {cell cell' : ScopeCell γ} (hobjects : cell.objects = cell'.objects)
    (hmessages : cell.messages = cell'.messages) (hmemberships : cell.memberships = cell'.memberships)
    (k : ProviderKey) : cell.told k = cell'.told k := by
  unfold told
  rw [hobjects, hmessages, hmemberships]

end ScopeCell

theorem filter_membershipRows (messages : List (Message γ)) (k : ProviderKey) :
    ((messages.flatMap Message.membershipRows).filter fun r => r.key = k) =
      (messages.filter fun m => m.key = k).flatMap Message.membershipRows := by
  induction messages with
  | nil => rfl
  | cons m messages ih =>
    rw [List.flatMap_cons, List.filter_append, ih]
    by_cases h : m.key = k
    · rw [List.filter_cons_of_pos (by simpa using h), List.flatMap_cons, List.filter_eq_self.mpr]
      intro r hr
      simpa [Message.key_of_mem_membershipRows hr] using h
    · rw [List.filter_cons_of_neg (by simpa using h), List.filter_eq_nil_iff.mpr, List.nil_append]
      intro r hr
      simpa [Message.key_of_mem_membershipRows hr] using h

theorem flatMap_membershipRows_eq_nil {messages : List (Message γ)} :
    messages.flatMap Message.membershipRows = [] ↔ messages = [] := by
  constructor
  · intro h
    cases messages with
    | nil => rfl
    | cons m rest =>
      rw [List.flatMap_cons, List.append_eq_nil_iff] at h
      exact absurd h.1 m.membershipRows_ne_nil
  · intro h
    rw [h]
    rfl

theorem foldl_row (rows : List (MailRow γ)) (s : Told γ) : rows.foldl (fun s r => { s with row := some r.told }) s =
      { s with row := (rows.getLast?.map MailRow.told).or s.row } := by
  induction rows generalizing s with
  | nil => rfl
  | cons r rows ih =>
    rw [List.foldl_cons, ih]
    cases hrows : rows.getLast? with
    | none =>
      have : rows = [] := List.getLast?_eq_none_iff.mp hrows
      simp [this]
    | some last => simp [List.getLast?_cons, hrows]

variable (cell : ScopeCell γ)

theorem told_putMessages (messages : List (Message γ)) (k : ProviderKey) :
    ((messages.map Message.row).foldl ScopeCell.putMessage cell).told k = { cell.told k with
        row := ((messages.filter fun m => m.key = k).getLast?.map fun m => m.row.told).or (cell.told k).row } := by
  rw [foldl_view ScopeCell.told MailRow.key (fun r s => { s with row := some r.told })
    ScopeCell.told_putMessage, foldl_row, List.filter_map, List.getLast?_map, Option.map_map]
  rfl

theorem told_applyStateChanges (changes : List MailStateRow) (k : ProviderKey) :
    (changes.foldl ScopeCell.applyStateChange cell).told k =
      (changes.filter fun c => c.key = k).foldl Told.change (cell.told k) :=
  foldl_view ScopeCell.told MailStateRow.key (fun c s => s.change c) ScopeCell.told_applyStateChange changes cell k

variable [MailContent γ]

variable (kind : StoreKind)

theorem told_applyDerived (cell : ScopeCell γ) (update : MailUpdate γ) (k : ProviderKey) :
    (cell.applyDerived kind (derive update)).told k =
      let sent := (update.changed.map Prod.snd).filter fun m => m.key = k
      let s := { cell.told k with
        row := (sent.getLast?.map fun m => m.row.told).or (cell.told k).row }
      let s := ((update.patched.map projectStateChange).filter fun c => c.key = k).foldl Told.change s
      if sent = [] then s else { s with memberships := Told.rowsOf sent } := by
  have hfts : ∀ c : ScopeCell γ, ∀ rows : List (FtsRow γ), (rows.foldl ScopeCell.putFts c).told k = c.told k := by
    intro c rows
    apply ScopeCell.told_congr
    · exact foldl_frame ScopeCell.objects ScopeCell.putFts (fun _ _ => rfl) rows c
    · exact foldl_frame ScopeCell.messages ScopeCell.putFts (fun _ _ => rfl) rows c
    · exact foldl_frame ScopeCell.memberships ScopeCell.putFts (fun _ _ => rfl) rows c
  have hrows := told_putMessages ((derive update).fts.foldl ScopeCell.putFts cell) (update.changed.map Prod.snd) k
  have hstates := told_applyStateChanges (((update.changed.map Prod.snd).map Message.row).foldl
    ScopeCell.putMessage ((derive update).fts.foldl ScopeCell.putFts cell))
    (update.patched.map projectStateChange) k
  rw [hrows, hfts] at hstates
  dsimp only at hstates ⊢
  rw [← hstates]
  unfold ScopeCell.applyDerived ScopeCell.told
  simp only [ScopeCell.get?_replaceRows]
  show Told.mk _ _ (Option.getD (if ((derive update).memberships.filter _) = [] then _ else
    some ((derive update).memberships.filter _)) []).toFinset = _
  show Told.mk _ _ (Option.getD (if (((update.changed.map Prod.snd).flatMap
    Message.membershipRows).filter fun r => r.key = k) = [] then _ else
    some (((update.changed.map Prod.snd).flatMap Message.membershipRows).filter fun r =>
      r.key = k)) []).toFinset = _
  rw [filter_membershipRows]
  simp only [flatMap_membershipRows_eq_nil]
  by_cases hsent : ((update.changed.map Prod.snd).filter fun m => m.key = k) = []
  · rw [if_pos hsent, if_pos hsent]
    rfl
  · rw [if_neg hsent, if_neg hsent]
    rfl

namespace SyncUpdate

def sentAt (update : MailUpdate γ) (k : ProviderKey) : List (Message γ) :=
  (update.changed.map Prod.snd).filter fun m => m.key = k

def changesAt (update : MailUpdate γ) (k : ProviderKey) : List MailStateRow :=
  (update.patched.map projectStateChange).filter fun c => c.key = k

/-- Every object of the update stands under its own key. -/
def WellKeyed (update : MailUpdate γ) : Prop := ∀ o ∈ update.changed, o.1 = o.2.key

omit [MailContent γ] in
theorem payloads_changed (update : MailUpdate γ) :
    update.payloads.changed = update.changed.map fun o => (o.1, o.2.content) := by
  cases update <;> rfl

omit [MailContent γ] in
theorem getLast?_payloads {update : MailUpdate γ} (h : WellKeyed update) (k : ProviderKey) :
    ((update.payloads.changed.filter fun o => o.1 = k).getLast?.map Prod.snd) =
      (update.sentAt k).getLast?.map Message.content := by
  have hfilter : (update.changed.filter fun o => o.1 = k) = update.changed.filter fun o => o.2.key = k :=
    List.filter_congr fun o ho => by rw [h o ho]
  unfold sentAt
  rw [payloads_changed, List.filter_map, List.filter_map, List.getLast?_map, List.getLast?_map,
    Option.map_map, Option.map_map]
  show Option.map _ (update.changed.filter fun o => o.1 = k).getLast? =
    Option.map _ (update.changed.filter fun o => o.2.key = k).getLast?
  rw [hfilter]
  rfl

end SyncUpdate

theorem told_commit (cell : ScopeCell γ) {update : MailUpdate γ}
    (h : update.WellKeyed) (next : Option SyncState) (k : ProviderKey) :
    (commit kind cell update next).told k =
      (cell.told k).commit (update.sentAt k) (update.changesAt k) (update.removesAt k) := by
  show ((cell.applyUpdate update.payloads).1.applyDerived kind (derive update)).told k = _
  rw [told_applyDerived, ScopeCell.told_applyUpdate]
  simp only [SyncUpdate.getLast?_payloads h]
  unfold Told.commit
  have hremoves : ∀ object : Option γ, update.payloads.removesAt k object = update.removesAt k object := by
    intro object
    cases update <;> rfl
  simp only [hremoves]
  rfl

end Mail
end SyncEngine
