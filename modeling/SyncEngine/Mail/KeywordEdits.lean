import Mathlib
import SyncEngine.Mail.Drain
import SyncEngine.Mail.Orphans
import SyncEngine.Outbox.Change

/-!
# Keyword changes shown before they are confirmed

What a message shows is the keywords the server last reported with every queued change on top.  The server's half is
kept beside the message as long as a change to it is unsettled, and every row the account has of the message shows the
same.
-/

namespace SyncEngine

namespace KeywordEdit

def applyTo (edit : KeywordEdit) (keywords : Finset Keyword) : Finset Keyword := keywords \ edit.remove ∪ edit.add

/-- The server's keywords with every change applied, in order. -/
def shown (server : Finset Keyword) (edits : List KeywordEdit) : Finset Keyword :=
  edits.foldl (fun keywords edit => edit.applyTo keywords) server

/-- Whether a change sets a keyword or clears it, where it names it. -/
def setting (edit : KeywordEdit) (keyword : Keyword) : Option Bool :=
  if keyword ∈ edit.add then some true else if keyword ∈ edit.remove then some false else none

theorem mem_shown {server : Finset Keyword} {edits : List KeywordEdit} {keyword : Keyword} :
    decide (keyword ∈ shown server edits) =
      (edits.reverse.findSome? (·.setting keyword)).getD (decide (keyword ∈ server)) := by
  induction edits using List.reverseRecOn with
  | nil => rfl
  | append_singleton edits edit ih =>
    have hstep : shown server (edits ++ [edit]) = edit.applyTo (shown server edits) := List.foldl_concat ..
    rw [hstep, List.reverse_concat, List.findSome?_cons, applyTo, setting]
    by_cases hadd : keyword ∈ edit.add
    · simp [hadd]
    · by_cases hremove : keyword ∈ edit.remove
      · simp [hadd, hremove]
      · simpa [hadd, hremove] using ih

end KeywordEdit

namespace Mail
namespace KeywordEdits

open Outbox (OpCell)
open KeywordEdit (shown)

/-! ## Rows -/

section Rows

variable {γ : Type} (cell : ScopeCell γ) (key : ProviderKey)

def rowKeywords : Finset Keyword :=
  (((cell.memberships.get? key).getD []).toFinset.filter (·.kind = .keyword)).image MembershipRow.value

def flagsOf (keywords : Finset Keyword) : MailFlags := MailFlags.fromKeywords keywords.sort

def showRow (keywords : Finset Keyword) : ScopeCell γ :=
  match cell.messages.get? key with
  | none => cell
  | some row =>
    { cell with
      messages := cell.messages.put key { row with flags := flagsOf keywords }
      memberships := cell.memberships.put key
        (ScopeCell.replaceKind key .keyword keywords.sort ((cell.memberships.get? key).getD [])) }

/-- The flags and the keywords of a row. -/
def shows : Option (MailFlags × Finset Keyword) :=
  (cell.messages.get? key).map fun row => (row.flags, rowKeywords cell key)

variable {cell key} {keywords : Finset Keyword} {k : ProviderKey}

theorem shows_showRow : shows (showRow cell key keywords) k =
    if k = key then (shows cell k).map fun _ => (flagsOf keywords, keywords) else shows cell k := by
  unfold showRow
  cases hrow : cell.messages.get? key with
  | none =>
    dsimp only
    split_ifs with hk
    · rw [hk, shows, hrow]
      rfl
    · rfl
  | some row =>
    dsimp only
    unfold shows rowKeywords
    dsimp only
    rw [Keyed.get?_put, Keyed.get?_put]
    split_ifs with hk
    · rw [hk, hrow, Option.map_some, Option.map_some, Option.map_some, Option.getD_some, ScopeCell.toFinset_replaceKind]
      refine congrArg (fun s => some (flagsOf keywords, s)) (Finset.ext fun keyword => ?_)
      simp only [Told.replaceKind, Finset.mem_image, Finset.mem_filter, Finset.mem_union, List.mem_toFinset,
        List.mem_map, Finset.mem_sort]
      constructor
      · rintro ⟨_, ⟨⟨-, hother⟩ | ⟨_, hmem, rfl⟩, hkind⟩, rfl⟩
        · simp [hkind] at hother
        · exact hmem
      · exact fun hmem => ⟨_, ⟨.inr ⟨keyword, hmem, rfl⟩, by simp⟩, rfl⟩
    · rfl

theorem shows_commit [MailContent γ] {kind : StoreKind} {update : MailUpdate γ} {next : Option SyncState}
    (h : update.WellKeyed) (hsent : update.sentAt k = []) (hchanges : update.changesAt k = []) :
    shows (commit kind cell update next) k = none ∨ shows (commit kind cell update next) k = shows cell k := by
  have hreads : ∀ c : ScopeCell γ, shows c k = (c.told k).row.map fun row =>
      (row.flags, ((c.told k).memberships.filter (·.kind = .keyword)).image MembershipRow.value) := by
    intro c
    unfold shows rowKeywords ScopeCell.told
    rw [Option.map_map]
    rfl
  rw [hreads, hreads cell, told_commit kind cell h, hsent, hchanges, Told.commit_unsent, List.foldl_nil]
  split_ifs
  · exact .inl rfl
  · exact .inr rfl

end Rows

/-! ## Queued, synced and settled -/

/-- An account's changes to a message whose op passes `keep`, in the order they were queued. -/
def edits (ops : List OpCell) (account : AccountId) (key : ProviderKey) (keep : OpCell → Bool) : List KeywordEdit :=
  ((ops.filter fun c => c.account = account && keep c).filterMap fun c => c.op.keywordEdit).filter (·.key = key)

def unsettledEdits (ops : List OpCell) (account : AccountId) (key : ProviderKey) : List KeywordEdit :=
  edits ops account key fun c => !c.state.isTerminal

/-- The changes of the ops that are over and were not settled, with how they ended. -/
def newlySettled (ops : List OpCell) : List (AccountId × KeywordEdit × PendingOpState) :=
  (ops.filter fun c => c.state.isTerminal && c.settledAt.isNone).filterMap fun c =>
    c.op.keywordEdit.map fun edit => (c.account, edit, c.state)

/-- The scopes, and the server's keywords of the messages with a change unsettled. -/
structure View (γ : Type) where
  scopes : Keyed SyncScope (ScopeCell γ)
  serverKeywords : AccountId → ProviderKey → Option (Finset Keyword)

variable {γ : Type}

namespace View

variable (v : View γ) (account : AccountId) (key : ProviderKey)

/-- A scope's row of a message. -/
def row (scope : SyncScope) : Option (MailFlags × Finset Keyword) := (v.scopes.get? scope).bind (shows · key)

def heldKeywords : Option (Finset Keyword) :=
  v.scopes.rows.findSome? fun r => if r.1.account = account then (shows r.2 key).map Prod.snd else none

def keep (server : Option (Finset Keyword)) : View γ :=
  { v with serverKeywords := fun a k => if a = account ∧ k = key then server else v.serverKeywords a k }

/-- Writes keywords as what every one of the account's rows of a message shows. -/
def showAs (keywords : Finset Keyword) : View γ :=
  { v with scopes := v.scopes.mapRows fun scope cell =>
      if scope.account = account then showRow cell key keywords else cell }

/-- Shows a change that was just queued. -/
def keywordEditQueued (ops : List OpCell) (edit : KeywordEdit) : View γ :=
  match v.heldKeywords account edit.key with
  | none => v
  | some held =>
    (v.keep account edit.key (some ((v.serverKeywords account edit.key).getD held))).showAs account edit.key
      (shown ((v.serverKeywords account edit.key).getD held) (unsettledEdits ops account edit.key))

/-- The changes accepted since a page was asked for, which it may not know of. -/
def accepted (ops : List OpCell) (observedFrom : Option UtcDateTime) : List KeywordEdit :=
  match observedFrom with
  | none => []
  | some since => edits ops account key fun c => c.state = .succeeded && c.settledAt.any (since < ·)

/-- Applies the queued changes again to a message that a sync of `scope` just wrote. -/
def keywordEditSynced (ops : List OpCell) (scope : SyncScope) (observedFrom : Option UtcDateTime) (v : View γ)
    (key : ProviderKey) : View γ :=
  match v.row key scope with
  | none => v
  | some (_, reported) =>
    let unsettled := unsettledEdits ops scope.account key
    if unsettled = [] ∧ accepted scope.account key ops observedFrom = [] then v
    else
      let server := shown reported (accepted scope.account key ops observedFrom)
      (v.keep scope.account key
        (if unsettled = [] then v.serverKeywords scope.account key else some server)).showAs scope.account key
          (shown server unsettled)

/-- An accepted change joins the server's keywords, and any other is no longer shown. -/
def settleOne (ops : List OpCell) (v : View γ) (settled : AccountId × KeywordEdit × PendingOpState) : View γ :=
  match v.serverKeywords settled.1 settled.2.1.key with
  | none => v
  | some held =>
    let server := if settled.2.2 = .succeeded then settled.2.1.applyTo held else held
    let unsettled := unsettledEdits ops settled.1 settled.2.1.key
    (v.keep settled.1 settled.2.1.key (if unsettled = [] then none else some server)).showAs settled.1 settled.2.1.key
      (shown server unsettled)

end View

def settle (now : UtcDateTime) (c : OpCell) : OpCell :=
  if c.state.isTerminal && c.settledAt.isNone then { c with settledAt := some now } else c

/-- The ops are in the order they were queued. -/
structure Inner (γ : Type) where
  ops : List OpCell
  view : View γ

namespace Inner

variable (s : Inner γ)

def settleKeywordEdits (now : UtcDateTime) : Inner γ :=
  ⟨s.ops.map (settle now), (newlySettled s.ops).foldl (View.settleOne (s.ops.map (settle now))) s.view⟩

def enqueue (account : AccountId) (op : PendingOp) : Inner γ :=
  let ops := s.ops ++ [OpCell.queued account op]
  ⟨ops, (op.keywordEdit.map (s.view.keywordEditQueued account ops)).getD s.view⟩

end Inner

section Pages

variable [MailContent γ]

/-- The messages a page writes. -/
def writtenKeys (update : MailUpdate γ) : List ProviderKey :=
  (derive update).messages.map MailRow.key ++ (derive update).stateChanges.map MailStateRow.key

def View.committed (v : View γ) (scope : SyncScope) (update : MailUpdate γ) (next : Option SyncState) : View γ :=
  { v with scopes := v.scopes.modify scope fun cell => commit .reference cell update next }

/-- A page of a scope, after which the ops are so: it may show that some succeeded. -/
def Inner.applyBatch (s : Inner γ) (ops : List OpCell) (scope : SyncScope) (update : MailUpdate γ)
    (next : Option SyncState) (observedFrom : Option UtcDateTime) (now : UtcDateTime) : Inner γ :=
  let committed := s.view.committed scope update next
  Inner.settleKeywordEdits ⟨ops, (writtenKeys update).foldl (View.keywordEditSynced ops scope observedFrom) committed⟩ now

end Pages

/-! ## What a message is shown as -/

theorem foldl_owned {σ ρ : Type} {P Q : σ → Prop} {own : ρ → Prop} {step : σ → ρ → σ}
    (hown : ∀ s r, own r → P s ∨ Q s → P (step s r))
    (hother : ∀ s r, ¬ own r → (P s → P (step s r)) ∧ (Q s → Q (step s r))) {rows : List ρ} {s : σ}
    (h : P s ∨ Q s ∧ ∃ r ∈ rows, own r) : P (rows.foldl step s) := by
  induction rows generalizing s with
  | nil => exact h.resolve_right fun hnone => nomatch hnone.2
  | cons r rows ih =>
    by_cases hr : own r
    · exact ih (.inl (hown s r hr (h.imp_right And.left)))
    · refine ih (h.imp (hother s r hr).1 fun ⟨hQ, hlater⟩ => ⟨(hother s r hr).2 hQ, ?_⟩)
      rw [List.exists_mem_cons_iff] at hlater
      exact hlater.resolve_left hr

section Exact

variable {v v' : View γ} {account a : AccountId} {key k : ProviderKey} {x : MailFlags × Finset Keyword}
  {pending : List KeywordEdit} {server keywords : Finset Keyword} {stored : Option (Finset Keyword)}

/-- A row the account has of the message shows this. -/
def View.Holds (v : View γ) (account : AccountId) (key : ProviderKey) (x : MailFlags × Finset Keyword) : Prop :=
  ∃ scope, scope.account = account ∧ v.row key scope = some x

/-- With changes pending, the server's keywords are kept and every row shows them with the changes on top; with none,
nothing is kept. -/
structure Exact (v : View γ) (account : AccountId) (key : ProviderKey) (pending : List KeywordEdit) : Prop where
  saved : pending = [] → v.serverKeywords account key = none
  rows : pending ≠ [] → ∀ x, v.Holds account key x → ∃ server, v.serverKeywords account key = some server ∧
    x = (flagsOf (shown server pending), shown server pending)

/-- Nothing of the message changed but for rows that are gone. -/
structure Within (v v' : View γ) (account : AccountId) (key : ProviderKey) : Prop where
  saved : v'.serverKeywords account key = v.serverKeywords account key
  rows : ∀ x, v'.Holds account key x → v.Holds account key x

/-- A message with rows has its server's keywords kept. -/
def Covered (v : View γ) (account : AccountId) (key : ProviderKey) : Prop :=
  v.serverKeywords account key = none → ∀ x, ¬ v.Holds account key x

theorem Exact.within (h : Exact v a k pending) (hw : Within v v' a k) : Exact v' a k pending where
  saved hnone := hw.saved.trans (h.saved hnone)
  rows hsome x hx := hw.saved ▸ h.rows hsome x (hw.rows x hx)

theorem Covered.within (h : Covered v a k) (hw : Within v v' a k) : Covered v' a k :=
  fun hnone x hx => h (hw.saved ▸ hnone) x (hw.rows x hx)

theorem row_showAs {scope : SyncScope} : (v.showAs account key keywords).row k scope =
    if scope.account = account ∧ k = key then (v.row k scope).map fun _ => (flagsOf keywords, keywords)
    else v.row k scope := by
  unfold View.row View.showAs
  dsimp only
  rw [Keyed.get?_mapRows]
  cases v.scopes.get? scope with
  | none => simp
  | some cell =>
    rw [Option.map_some, Option.bind_some, Option.bind_some]
    by_cases haccount : scope.account = account
    · simp only [haccount, if_true, true_and, shows_showRow]
    · simp only [haccount, if_false, false_and]

theorem holds_showAs (h : (v.showAs account key keywords).Holds a k x) :
    if a = account ∧ k = key then x = (flagsOf keywords, keywords) else v.Holds a k x := by
  obtain ⟨scope, rfl, hrow⟩ := h
  rw [row_showAs] at hrow
  split_ifs at hrow ⊢
  · obtain ⟨_, -, rfl⟩ := Option.map_eq_some_iff.mp hrow
    rfl
  · exact ⟨scope, rfl, hrow⟩

theorem row_showAs_eq_none {scope : SyncScope} :
    (v.showAs account key keywords).row k scope = none ↔ v.row k scope = none := by
  rw [row_showAs]
  split_ifs
  · exact Option.map_eq_none_iff
  · rfl

theorem exact_shown (hnone : pending = [] → stored = none) (hsome : pending ≠ [] → stored = some server) :
    Exact ((v.keep account key stored).showAs account key (shown server pending)) account key pending where
  saved hp := (if_pos ⟨rfl, rfl⟩).trans (hnone hp)
  rows hp x hx := by
    have hshown := holds_showAs hx
    rw [if_pos ⟨rfl, rfl⟩] at hshown
    exact ⟨server, (if_pos ⟨rfl, rfl⟩).trans (hsome hp), hshown⟩

theorem within_shown (h : ¬ (a = account ∧ k = key)) :
    Within v ((v.keep account key stored).showAs account key keywords) a k where
  saved := if_neg h
  rows x hx := by
    have hshown := holds_showAs hx
    rwa [if_neg h] at hshown

theorem not_holds_of_heldKeywords (h : v.heldKeywords account key = none) : ¬ v.Holds account key x := by
  rintro ⟨scope, rfl, hrow⟩
  obtain ⟨cell, hcell, hshows⟩ := Option.bind_eq_some_iff.mp hrow
  have hnone := List.findSome?_eq_none_iff.mp h _ ((Keyed.get?_eq_some_iff _).mp hcell)
  rw [if_pos rfl, hshows] at hnone
  exact nomatch hnone

/-! ## One change at a time -/

variable {ops : List OpCell} {settled : AccountId × KeywordEdit × PendingOpState} {scope : SyncScope}
  {observedFrom : Option UtcDateTime} {Hit : Prop}

theorem settleOne_own (h : Exact v settled.1 settled.2.1.key (unsettledEdits ops settled.1 settled.2.1.key) ∨
      Covered v settled.1 settled.2.1.key) :
    Exact (v.settleOne ops settled) settled.1 settled.2.1.key (unsettledEdits ops settled.1 settled.2.1.key) := by
  unfold View.settleOne
  cases hheld : v.serverKeywords settled.1 settled.2.1.key with
  | none =>
    rcases h with hexact | hcovered
    · exact hexact
    · exact ⟨fun _ => hheld, fun _ x hx => absurd hx (hcovered hheld x)⟩
  | some held => exact exact_shown (fun hnone => if_pos hnone) (fun hsome => if_neg hsome)

theorem settleOne_other (h : ¬ (a = settled.1 ∧ k = settled.2.1.key)) : Within v (v.settleOne ops settled) a k := by
  unfold View.settleOne
  cases v.serverKeywords settled.1 settled.2.1.key with
  | none => exact ⟨rfl, fun _ hx => hx⟩
  | some held => exact within_shown h

/-- Exact, or about to be by a settlement. -/
def Ready (Hit : Prop) (v : View γ) (account : AccountId) (key : ProviderKey) (pending : List KeywordEdit) : Prop :=
  Exact v account key pending ∨ Covered v account key ∧ Hit

theorem Ready.within (h : Ready Hit v a k pending) (hw : Within v v' a k) : Ready Hit v' a k pending :=
  h.imp (·.within hw) (.imp_left (·.within hw))

theorem Ready.saved (h : Ready Hit v a k pending) (hp : pending = []) : v.serverKeywords a k = none ∨ Hit :=
  h.imp (·.saved hp) And.right

theorem ready_of_nil (h : v.serverKeywords a k = none ∨ Hit) : Ready Hit v a k [] := by
  by_cases hnone : v.serverKeywords a k = none
  · exact .inl ⟨fun _ => hnone, fun hne => absurd rfl hne⟩
  · exact .inr ⟨fun hsaved => absurd hsaved hnone, h.resolve_left hnone⟩

/-- Ready once the row that was just written is shown. -/
def Written (Hit : Prop) (scope : SyncScope) (v : View γ) (key : ProviderKey) (pending : List KeywordEdit) : Prop :=
  (v.row key scope = none → Ready Hit v scope.account key pending) ∧
    (pending = [] → v.serverKeywords scope.account key = none ∨ Hit)

theorem synced_own (h : Ready Hit v scope.account key (unsettledEdits ops scope.account key) ∨
      Written Hit scope v key (unsettledEdits ops scope.account key)) :
    Ready Hit (View.keywordEditSynced ops scope observedFrom v key) scope.account key
      (unsettledEdits ops scope.account key) := by
  have hsaved : unsettledEdits ops scope.account key = [] → v.serverKeywords scope.account key = none ∨ Hit :=
    h.elim Ready.saved And.right
  unfold View.keywordEditSynced
  cases hrow : v.row key scope with
  | none => exact h.elim id fun hwritten => hwritten.1 hrow
  | some x =>
    dsimp only
    by_cases hp : unsettledEdits ops scope.account key = []
    · split_ifs
      · rw [hp]
        exact ready_of_nil (hsaved hp)
      · rw [hp]
        exact ready_of_nil ((hsaved hp).imp_left (if_pos ⟨rfl, rfl⟩).trans)
    · rw [if_neg fun hboth => hp hboth.1, if_neg hp]
      exact .inl (exact_shown (fun hnone => absurd hnone hp) fun _ => rfl)

theorem synced_other (h : ¬ (a = scope.account ∧ k = key)) :
    Within v (View.keywordEditSynced ops scope observedFrom v key) a k := by
  unfold View.keywordEditSynced
  cases v.row key scope with
  | none => exact ⟨rfl, fun _ hx => hx⟩
  | some x =>
    dsimp only
    split_ifs
    · exact ⟨rfl, fun _ hx => hx⟩
    · exact within_shown h
    · exact within_shown h

theorem row_synced : (View.keywordEditSynced ops scope observedFrom v key).row k scope = none ↔ v.row k scope = none := by
  unfold View.keywordEditSynced
  cases v.row key scope with
  | none => rfl
  | some x =>
    dsimp only
    split_ifs
    · rfl
    · exact row_showAs_eq_none
    · exact row_showAs_eq_none

end Exact

/-! ## Ops that move on -/

section Ops

variable {ops ops' : List OpCell} {c c' : OpCell} {account : AccountId} {key : ProviderKey} {now : UtcDateTime}

/-- What an outbox call makes of an op: a keyword change that is over is not taken up again. -/
structure Becomes (c c' : OpCell) : Prop where
  account : c'.account = c.account
  op : c'.op = c.op
  settledAt : c'.settledAt = c.settledAt
  stays : c.op.keywordEdit ≠ none → c.state.isTerminal = true → c'.state.isTerminal = true

/-- A change to the message was settled just now. -/
def Hits (ops : List OpCell) (account : AccountId) (key : ProviderKey) : Prop :=
  ∃ settled ∈ newlySettled ops, account = settled.1 ∧ key = settled.2.1.key

theorem unsettledEdits_cons : unsettledEdits (c :: ops) account key =
    (if c.account = account ∧ c.state.isTerminal = false then c.op.keywordEdit.toList.filter (·.key = key) else []) ++
      unsettledEdits ops account key := by
  unfold unsettledEdits edits
  rw [List.filter_cons]
  by_cases hown : c.account = account ∧ c.state.isTerminal = false
  · rw [if_pos hown, if_pos (by simp [hown])]
    cases hedit : c.op.keywordEdit with
    | none => simp [hedit]
    | some edit => by_cases hkey : edit.key = key <;> simp [hedit, hkey]
  · rw [if_neg hown, if_neg (by simpa using hown)]
    rfl

theorem unsettledEdits_append : unsettledEdits (ops ++ ops') account key =
    unsettledEdits ops account key ++ unsettledEdits ops' account key := by
  unfold unsettledEdits edits
  rw [List.filter_append, List.filterMap_append, List.filter_append]

theorem unsettledEdits_settle : unsettledEdits (ops.map (settle now)) account key = unsettledEdits ops account key := by
  induction ops with
  | nil => rfl
  | cons c ops ih =>
    rw [List.map_cons, unsettledEdits_cons, unsettledEdits_cons, ih, settle]
    split_ifs <;> rfl

/-- Every op with a keyword change was settled when it was over. -/
def Swept (ops : List OpCell) : Prop := ∀ c ∈ ops, c.op.keywordEdit ≠ none → c.state.isTerminal = c.settledAt.isSome

theorem hits_of_mem {edit : KeywordEdit} (hmem : c ∈ ops) (hover : c.state.isTerminal = true)
    (hnew : c.settledAt = none) (hedit : c.op.keywordEdit = some edit) : Hits ops c.account edit.key :=
  ⟨(c.account, edit, c.state), List.mem_filterMap.mpr ⟨c, List.mem_filter.mpr ⟨hmem, by simp [hover, hnew]⟩, by simp [hedit]⟩,
    rfl, rfl⟩

theorem Hits.mono (h : Hits ops account key) (hsub : ops.Sublist ops') : Hits ops' account key := by
  obtain ⟨settled, hmem, hsame⟩ := h
  exact ⟨settled, ((hsub.filter _).filterMap _).subset hmem, hsame⟩

theorem unsettledEdits_becomes (h : List.Forall₂ Becomes ops ops') (hswept : Swept ops) :
    unsettledEdits ops' account key = unsettledEdits ops account key ∨
      unsettledEdits ops account key ≠ [] ∧ Hits ops' account key := by
  induction h with
  | nil => exact .inl rfl
  | @cons c c' ops ops' hc _ ih =>
    have hrest := ih fun d hd => hswept d (List.mem_cons_of_mem c hd)
    have hsettled := hswept c List.mem_cons_self
    rw [unsettledEdits_cons, unsettledEdits_cons, hc.account, hc.op]
    rcases hrest with hrest | ⟨hne, hhits⟩
    · rw [hrest]
      cases hedit : c.op.keywordEdit with
      | none => simp
      | some edit =>
        have hnone : c.op.keywordEdit ≠ none := by simp [hedit]
        by_cases hown : c.account = account ∧ edit.key = key
        · obtain ⟨rfl, rfl⟩ := hown
          cases hbefore : c.state.isTerminal with
          | true => simp [hc.stays hnone hbefore]
          | false =>
            cases hafter : c'.state.isTerminal with
            | false => simp
            | true =>
              have hnew : c'.settledAt = none := by
                rw [hc.settledAt, ← Option.not_isSome_iff_eq_none, ← hsettled hnone, hbefore]
                exact Bool.false_ne_true
              have hhits : Hits (c' :: ops') c'.account edit.key :=
                hits_of_mem List.mem_cons_self hafter hnew ((congrArg _ hc.op).trans hedit)
              rw [hc.account] at hhits
              exact .inr ⟨by simp, hhits⟩
        · rw [not_and] at hown
          refine .inl (congrArg (· ++ _) ?_)
          by_cases haccount : c.account = account
          · simp [hown haccount]
          · simp [haccount]
    · exact .inr ⟨fun hnil => hne (List.append_eq_nil_iff.mp hnil).2, hhits.mono (List.sublist_cons_self c' ops')⟩

theorem swept_settle (h : List.Forall₂ Becomes ops ops') (hswept : Swept ops) : Swept (ops'.map (settle now)) := by
  induction h with
  | nil => exact fun c hc => nomatch hc
  | @cons c c' ops ops' hc _ ih =>
    obtain ⟨hhead, htail⟩ := List.forall_mem_cons.mp hswept
    refine List.forall_mem_cons.mpr ⟨fun hedit => ?_, ih htail⟩
    unfold settle at hedit ⊢
    split_ifs at hedit ⊢ with hnew
    · exact (Bool.and_eq_true_iff.mp hnew).1
    · have hedit' : c.op.keywordEdit ≠ none := hc.op ▸ hedit
      cases hat : c'.settledAt with
      | none => simpa [hat] using hnew
      | some instant => exact hc.stays hedit' ((hhead hedit').trans (by rw [← hc.settledAt, hat]; rfl))

end Ops

/-! ## Every state that is reached -/

section Reached

variable {s s' : Inner γ} {ops : List OpCell} {a account : AccountId} {k key : ProviderKey} {now : UtcDateTime}
  {pending : List KeywordEdit} {v : View γ}

structure Valid (s : Inner γ) : Prop where
  swept : Swept s.ops
  exact : ∀ account key, Exact s.view account key (unsettledEdits s.ops account key)

theorem ready_of_becomes (h : Valid s) (hops : List.Forall₂ Becomes s.ops ops) :
    Ready (Hits ops a k) s.view a k (unsettledEdits ops a k) := by
  have hexact := h.exact a k
  rcases unsettledEdits_becomes hops h.swept with hsame | ⟨hne, hhits⟩
  · exact .inl (hsame ▸ hexact)
  · refine .inr ⟨fun hnone x hx => ?_, hhits⟩
    obtain ⟨_, hsaved, -⟩ := hexact.rows hne x hx
    exact nomatch hnone.symm.trans hsaved

theorem exact_settled (h : ∀ a k, Ready (Hits ops a k) v a k (unsettledEdits ops a k)) (a : AccountId)
    (k : ProviderKey) : Exact ((newlySettled ops).foldl (View.settleOne (ops.map (settle now))) v) a k
      (unsettledEdits (ops.map (settle now)) a k) := by
  have hstart := h a k
  rw [← @unsettledEdits_settle ops a k now] at hstart
  refine @foldl_owned _ _ (fun v => Exact v a k (unsettledEdits (ops.map (settle now)) a k)) (fun v => Covered v a k)
    (fun settled : AccountId × KeywordEdit × PendingOpState => a = settled.1 ∧ k = settled.2.1.key) _
    (fun v x hown hv => ?_) (fun v x hother => ?_) _ _ hstart
  · obtain ⟨rfl, rfl⟩ := hown
    exact settleOne_own hv
  · exact ⟨(·.within (settleOne_other hother)), (·.within (settleOne_other hother))⟩

theorem valid_settle (hswept : Swept s.ops) (hops : List.Forall₂ Becomes s.ops ops)
    (h : ∀ a k, Ready (Hits ops a k) v a k (unsettledEdits ops a k)) : Valid (Inner.settleKeywordEdits ⟨ops, v⟩ now) :=
  ⟨swept_settle hops hswept, exact_settled h⟩

theorem valid_enqueue (h : Valid s) (op : PendingOp) : Valid (s.enqueue account op) := by
  have hqueued : ∀ a k, unsettledEdits (s.ops ++ [OpCell.queued account op]) a k =
      unsettledEdits s.ops a k ++ if account = a then op.keywordEdit.toList.filter (·.key = k) else [] := by
    intro a k
    have hlast : unsettledEdits [OpCell.queued account op] a k = _ := unsettledEdits_cons
    rw [unsettledEdits_append, hlast]
    simp [OpCell.queued, PendingOpState.isTerminal, unsettledEdits, edits]
  refine ⟨fun c hc hedit => ?_, fun a k => ?_⟩
  · rcases List.mem_append.mp hc with hold | hnew
    · exact h.swept c hold hedit
    · rw [List.mem_singleton.mp hnew]
      rfl
  · show Exact ((op.keywordEdit.map _).getD s.view) a k (unsettledEdits (s.ops ++ [OpCell.queued account op]) a k)
    cases hedit : op.keywordEdit with
    | none =>
      rw [hqueued, hedit]
      simpa using h.exact a k
    | some edit =>
      rw [Option.map_some, Option.getD_some, View.keywordEditQueued]
      by_cases hown : a = account ∧ k = edit.key
      · obtain ⟨rfl, rfl⟩ := hown
        have hne : unsettledEdits (s.ops ++ [OpCell.queued a op]) a edit.key ≠ [] := by
          rw [hqueued, hedit]
          simp
        cases hheld : s.view.heldKeywords a edit.key with
        | none => exact ⟨fun hnil => absurd hnil hne, fun _ x hx => absurd hx (not_holds_of_heldKeywords hheld)⟩
        | some held => exact exact_shown (fun hnil => absurd hnil hne) fun _ => rfl
      · have hsame : unsettledEdits (s.ops ++ [OpCell.queued account op]) a k = unsettledEdits s.ops a k := by
          rw [hqueued, hedit]
          by_cases haccount : account = a
          · have hkey : edit.key ≠ k := fun hkey => hown ⟨haccount.symm, hkey.symm⟩
            simp [hkey]
          · simp [haccount]
        rw [hsame]
        cases s.view.heldKeywords account edit.key with
        | none => exact h.exact a k
        | some held => exact (h.exact a k).within (within_shown hown)

variable [MailContent γ] {update : MailUpdate γ} {next : Option SyncState} {observedFrom : Option UtcDateTime}
  {scope : SyncScope}

theorem unwritten (h : k ∉ writtenKeys update) : update.sentAt k = [] ∧ update.changesAt k = [] := by
  unfold writtenKeys at h
  rw [List.mem_append, not_or] at h
  refine ⟨List.filter_eq_nil_iff.mpr fun m hm => ?_, List.filter_eq_nil_iff.mpr fun change hchange => ?_⟩
  · have hrow : m.row ∈ (derive update).messages := List.mem_map_of_mem hm
    simpa using fun hkey : m.key = k => h.1 (hkey ▸ List.mem_map_of_mem hrow)
  · simpa using fun hkey : change.key = k => h.2 (hkey ▸ List.mem_map_of_mem hchange)

theorem within_committed (hkeyed : update.WellKeyed)
    (h : scope.account = a → k ∉ writtenKeys update ∨ (v.committed scope update next).row k scope = none) :
    Within v (v.committed scope update next) a k := by
  refine ⟨rfl, fun x hx => ?_⟩
  obtain ⟨held, rfl, hrow⟩ := hx
  refine ⟨held, rfl, ?_⟩
  obtain ⟨cell', hcell', hshows⟩ : ∃ cell', (v.scopes.modify scope fun cell => commit .reference cell update
    next).get? held = some cell' ∧ shows cell' k = some x := Option.bind_eq_some_iff.mp hrow
  rw [Keyed.get?_modify] at hcell'
  split_ifs at hcell' with hscope
  · obtain ⟨cell, hcell, rfl⟩ := Option.map_eq_some_iff.mp hcell'
    subst hscope
    rcases h rfl with hunwritten | hgone
    · obtain ⟨hsent, hchanges⟩ := unwritten hunwritten
      rcases @shows_commit _ cell k _ .reference update next hkeyed hsent hchanges with hnone | hsame
      · cases hnone.symm.trans hshows
      · exact Option.bind_eq_some_iff.mpr ⟨cell, hcell, hsame.symm.trans hshows⟩
    · cases hgone.symm.trans hrow
  · exact Option.bind_eq_some_iff.mpr ⟨cell', hcell', hshows⟩

theorem valid_applyBatch (h : Valid s) (hops : List.Forall₂ Becomes s.ops ops) (hkeyed : update.WellKeyed) :
    Valid (s.applyBatch ops scope update next observedFrom now) := by
  refine valid_settle h.swept hops fun a k => ?_
  have hready : Ready (Hits ops a k) s.view a k (unsettledEdits ops a k) := ready_of_becomes h hops
  refine @foldl_owned _ _ (fun v => Ready (Hits ops a k) v a k (unsettledEdits ops a k))
    (fun v => a = scope.account ∧ Written (Hits ops a k) scope v k (unsettledEdits ops a k))
    (fun key => a = scope.account ∧ k = key) _ (fun v key hown hv => ?_) (fun v key hother => ?_) (writtenKeys update)
    (s.view.committed scope update next) ?_
  · obtain ⟨rfl, rfl⟩ := hown
    exact synced_own (hv.imp_right And.right)
  · have hwithin : Within v (View.keywordEditSynced ops scope observedFrom v key) a k := synced_other hother
    refine ⟨(·.within hwithin), fun ⟨haccount, hrow, hsaved⟩ => ⟨haccount, fun hnone => ?_, fun hp => ?_⟩⟩
    · exact haccount ▸ Ready.within (haccount ▸ hrow (row_synced.mp hnone)) hwithin
    · exact (hsaved hp).imp_left (haccount ▸ hwithin.saved).trans
  · by_cases hown : a = scope.account ∧ k ∈ writtenKeys update
    · obtain ⟨rfl, hmem⟩ := hown
      refine .inr ⟨⟨rfl, fun hnone => hready.within (within_committed hkeyed fun _ => .inr hnone), hready.saved⟩, ?_⟩
      exact ⟨k, hmem, rfl, rfl⟩
    · exact .inl (hready.within (within_committed hkeyed fun haccount => .inl fun hmem => hown ⟨haccount.symm, hmem⟩))

end Reached

/-! ## Runs -/

section Runs

variable [MailContent γ]

def Inner.start : Inner γ := ⟨[], Keyed.empty, fun _ _ => none⟩

/-- What happens to a store: an op is queued, the outbox moves its ops on, a pass applies a page, and scopes come and go
or are held in another order. -/
inductive Step : Inner γ → Inner γ → Prop
  | enqueue (s : Inner γ) (account : AccountId) (op : PendingOp) : Step s (s.enqueue account op)
  | transition (s : Inner γ) (now : UtcDateTime) {ops : List OpCell} (hops : List.Forall₂ Becomes s.ops ops) :
      Step s (Inner.settleKeywordEdits ⟨ops, s.view⟩ now)
  | applyBatch (s : Inner γ) (scope : SyncScope) {update : MailUpdate γ} (next : Option SyncState)
      (observedFrom : Option UtcDateTime) (now : UtcDateTime) {ops : List OpCell}
      (hops : List.Forall₂ Becomes s.ops ops) (hkeyed : update.WellKeyed) :
      Step s (s.applyBatch ops scope update next observedFrom now)
  | scopes (s : Inner γ) {view : View γ} (hsaved : view.serverKeywords = s.view.serverKeywords)
      (hrows : ∀ scope key, view.row key scope = none ∨ view.row key scope = s.view.row key scope) :
      Step s { s with view }

variable {s s' : Inner γ}

theorem Valid.step (h : Valid s) (hstep : Step s s') : Valid s' := by
  cases hstep with
  | enqueue account op => exact valid_enqueue h op
  | transition now hops => exact valid_settle h.swept hops fun a k => ready_of_becomes h hops
  | applyBatch scope next observedFrom now hops hkeyed => exact valid_applyBatch h hops hkeyed
  | scopes hsaved hrows =>
    refine ⟨h.swept, fun a k => (h.exact a k).within ⟨by rw [hsaved], fun x hx => ?_⟩⟩
    obtain ⟨scope, haccount, hrow⟩ := hx
    exact ⟨scope, haccount, ((hrows scope k).resolve_left fun hnone => nomatch hnone.symm.trans hrow).symm.trans hrow⟩

/-- In every state of a store that never takes up a keyword change that is over: where changes to a message are
unsettled, each row of it shows a keyword as the last of them that names it has it, or else as the server's set that is
kept does; where none is, no set is kept. -/
theorem rows_show_unsettled (h : Relation.ReflTransGen Step Inner.start s) (account : AccountId) (key : ProviderKey) :
    (unsettledEdits s.ops account key = [] → s.view.serverKeywords account key = none) ∧
      ∀ scope flags keywords, scope.account = account → s.view.row key scope = some (flags, keywords) →
        unsettledEdits s.ops account key ≠ [] → flags = flagsOf keywords ∧
          ∃ server, s.view.serverKeywords account key = some server ∧ ∀ keyword, decide (keyword ∈ keywords) =
            ((unsettledEdits s.ops account key).reverse.findSome? (·.setting keyword)).getD (decide (keyword ∈ server)) := by
  have hvalid : Valid s := by
    induction h with
    | refl => exact ⟨fun c hc => (nomatch hc), fun a k => ⟨fun _ => rfl, fun hne => absurd rfl hne⟩⟩
    | tail _ hstep ih => exact ih.step hstep
  refine ⟨(hvalid.exact account key).saved, fun scope flags keywords haccount hrow hne => ?_⟩
  obtain ⟨server, hsaved, hx⟩ := (hvalid.exact account key).rows hne _ ⟨scope, haccount, hrow⟩
  obtain ⟨rfl, rfl⟩ := Prod.mk.inj hx
  exact ⟨rfl, server, hsaved, fun _ => KeywordEdit.mem_shown⟩

end Runs

namespace Sample

def inbox : SyncScope := .imapMailbox "a" "INBOX"

theorem instant_lt : 0 < UtcDateTime.rangeNanos := by decide

def instant : UtcDateTime := ⟨0, instant_lt⟩

def queued : Inner Unit :=
  Inner.start.enqueue "a" ⟨"k", .mailEdit, [], "m1", "", some ⟨"m1", {"$flagged"}, ∅⟩⟩

def claimed : Inner Unit :=
  { queued with view := { queued.view with scopes := Keyed.empty.put inbox ScopeCell.new } }

/-- A message is flagged before the sync that brings it, which does not know. -/
def synced : Inner Unit :=
  claimed.applyBatch claimed.ops inbox (.delta [("m1", Mail.Sample.greeting)] [] []) none none instant

end Sample

open KeywordEdits.Sample in
theorem rows_show_unsettled_synced : ∃ flags keywords, synced.view.row "m1" inbox = some (flags, keywords) ∧
    flags = flagsOf keywords ∧ "$flagged" ∈ keywords := by
  have hclaimed : Step queued claimed := by
    refine .scopes queued rfl fun scope key => .inl ?_
    show ((Keyed.empty.put inbox ScopeCell.new).get? scope).bind _ = none
    rw [Keyed.get?_put]
    split_ifs <;> rfl
  have hsame : List.Forall₂ Becomes claimed.ops claimed.ops :=
    List.forall₂_same.mpr fun c _ => ⟨rfl, rfl, rfl, fun _ => id⟩
  have hsynced : Step claimed synced := .applyBatch claimed inbox none none instant hsame fun o ho => by
    rw [List.mem_singleton.mp ho]
    rfl
  obtain ⟨⟨flags, keywords⟩, hrow⟩ := Option.isSome_iff_exists.mp (show (synced.view.row "m1" inbox).isSome by decide)
  obtain ⟨hflags, server, -, hkeywords⟩ := (rows_show_unsettled
    (((Relation.ReflTransGen.single (.enqueue _ _ _)).tail hclaimed).tail hsynced) "a" "m1").2 inbox flags keywords rfl
      hrow (by decide)
  exact ⟨flags, keywords, hrow, hflags, of_decide_eq_true (hkeywords "$flagged")⟩

end KeywordEdits
end Mail
end SyncEngine
