import SyncEngine.Dav.Gathered

/-!
# What the passes over a collection share

The invariant ties the stored cursor and tag to the journal.  A sync token stands for readings of the resources up to
what was told with it; a CTag and a collection tag each stand for one state, with which the store agrees while the
collection is still in it.  A pass relies on the others to write under the scope's lease only.
-/

namespace SyncEngine
namespace Dav
namespace Server

/-!
## What an update leaves

Applied to what was held, an update that was gathered from a true answer leaves a reading of the journal
up to the answer, wherever the answer told everything since the reading before.  And it drops only what
was gone at some time since.
-/

open Journal

variable {ε : Type} {sv : Server} {reader : String → Props → Option ε} {log : Log} {m n : Nat}
variable {names : List String} {changed : List (ProviderKey × ε)} {removed present : List ProviderKey}
variable {k : ProviderKey} {held : ProviderKey → Option ε}

theorem coversAt_gone (hf : Found log m k none) : CoversAt (reads reader) log m k none := by
  refine ⟨fun _ => rfl, ?_⟩
  intro hq a b hv _
  rw [hf.eq_value hq] at hv
  exact nomatch hv

theorem coversAt_read {res : Resource} {b : ε} (hat : valueAt log m k ≠ none)
    (hf : Found log m k (some res)) (hb : reads reader k res = some b) :
    CoversAt (reads reader) log m k (some b) := by
  refine ⟨fun hnone => absurd hnone hat, ?_⟩
  intro hq a b' hv hb'
  rw [hf.eq_value hq] at hv
  rw [← Option.some.inj hv, hb] at hb'
  exact hb'

theorem Gathered.coversAt_latest (g : sv.Gathered reader log m names changed removed present)
    {o : ProviderKey × ε} (ho : latest Prod.fst changed k = some o) :
    CoversAt (reads reader) log m k (some o.2) := by
  obtain ⟨hmem, hkey⟩ := mem_of_latest ho
  rw [← hkey]
  obtain ⟨hat, res, hf, hb⟩ := g.read o.1 o.2 hmem
  exact coversAt_read hat hf hb

theorem Gathered.coversAt_unread (g : sv.Gathered reader log m names changed removed present)
    {x : Option ε} (hmem : sv.member k = true) (hk : k ∈ names) (hp : k ∈ present)
    (hl : latest Prod.fst changed k = none) : CoversAt (reads reader) log m k x := by
  refine ⟨fun hnone => absurd hnone (g.listed k hp), ?_⟩
  intro hq a b hv hb
  rcases g.named k hk hmem with hgone | ⟨-, res, hf, hchanged⟩
  · rw [(g.gone k hgone).eq_value hq] at hv
    exact nomatch hv
  · rw [hf.eq_value hq] at hv
    rw [← Option.some.inj hv] at hb
    exact absurd rfl (latest_eq_none.mp hl (k, b) (hchanged b hb))

theorem Gathered.delta_coversAt (g : sv.Gathered reader log m names changed removed present)
    (hn : n ≤ m) (hc : CoversAt (reads reader) log n k (held k))
    (htold : (sv.member k = true ∧ k ∈ names) ∨ QuietFrom (log.take m) n k ∨
      (valueAt log n k = none ∧ valueAt log m k = none)) :
    CoversAt (reads reader) log m k ((SyncUpdate.delta changed removed).result held k) := by
  dsimp only [SyncUpdate.result]
  by_cases hr : k ∈ removed
  · rw [if_pos hr]
    exact coversAt_gone (g.gone k hr)
  · rw [if_neg hr]
    cases hl : latest Prod.fst changed k with
    | some o => exact g.coversAt_latest hl
    | none =>
      show CoversAt (reads reader) log m k (held k)
      rcases htold with ⟨hmem, hk⟩ | hq | ⟨hn', hm'⟩
      · rcases g.named k hk hmem with hgone | ⟨hp, -⟩
        · exact absurd hgone hr
        · exact g.coversAt_unread hmem hk hp hl
      · exact hc.skip hq hn
      · exact hc.still_absent hn' hm'

theorem Gathered.snapshot_coversAt (g : sv.Gathered reader log m names changed removed present)
    (htold : (sv.member k = true ∧ k ∈ names) ∨ valueAt log m k = none) :
    CoversAt (reads reader) log m k ((SyncUpdate.snapshot changed present).result held k) := by
  dsimp only [SyncUpdate.result]
  by_cases hp : k ∈ present
  · rw [if_pos hp]
    cases hl : latest Prod.fst changed k with
    | some o => exact g.coversAt_latest hl
    | none =>
      rcases htold with ⟨hmem, hk⟩ | hnone
      · exact g.coversAt_unread hmem hk hp hl
      · exact absurd hnone (g.listed k hp)
  · rw [if_neg hp]
    rcases htold with ⟨hmem, hk⟩ | hnone
    · rcases g.named k hk hmem with hgone | ⟨hp', -⟩
      · exact coversAt_gone (g.gone k hgone)
      · exact absurd hp' hp
    · exact .of_absent hnone

theorem Gathered.snapshot_unnamed (g : sv.Gathered reader log m names changed removed present)
    (hk : k ∉ names) : (SyncUpdate.snapshot changed present).result held k = none := by
  dsimp only [SyncUpdate.result]
  rw [if_neg (fun hp => hk (g.within k (.inr (.inl hp))))]

theorem Gathered.delta_unnamed (g : sv.Gathered reader log m names changed removed present)
    (hk : k ∉ names) : (SyncUpdate.delta changed removed).result held k = held k := by
  have hl : latest Prod.fst changed k = none := by
    rw [latest_eq_none]
    intro o ho he
    rw [← he] at hk
    exact hk (g.within o.1 (.inr (.inr ⟨o.2, ho⟩)))
  dsimp only [SyncUpdate.result]
  rw [if_neg (fun hr => hk (g.within k (.inl hr))), hl]
  rfl

theorem Gathered.delta_drops (g : sv.Gathered reader log m names changed removed present) (hheld : (held k).isSome = true)
    (hdrop : (SyncUpdate.delta changed removed).result held k = none) : Found log m k none := by
  dsimp only [SyncUpdate.result] at hdrop
  by_cases hr : k ∈ removed
  · exact g.gone k hr
  · rw [if_neg hr, Option.or_eq_none_iff] at hdrop
    rw [hdrop.2] at hheld
    exact nomatch hheld

theorem Gathered.snapshot_drops (g : sv.Gathered reader log m names changed removed present)
    (hm : m ≤ log.length) (hheld : (held k).isSome = true)
    (hdrop : (SyncUpdate.snapshot changed present).result held k = none)
    (htold : (sv.member k = true ∧ k ∈ names) ∨ valueAt log m k = none) : Found log m k none := by
  dsimp only [SyncUpdate.result] at hdrop
  by_cases hp : k ∈ present
  · rw [if_pos hp, Option.or_eq_none_iff] at hdrop
    rw [hdrop.2] at hheld
    exact nomatch hheld
  · rcases htold with ⟨hmem, hk⟩ | hnone
    · rcases g.named k hk hmem with hgone | ⟨hp', -⟩
      · exact g.gone k hgone
      · exact absurd hp' hp
    · exact ⟨m, Nat.le_refl m, hm, hnone⟩

end Server

open Journal
open Scope (Store ScopeRow)

variable {ε : Type}

/-! ## The invariant -/

section Invariant

variable (sv : Server) (c : Synced ε)

def Agreed (log : Log) (held : ProviderKey → Option ε) : Prop := Agrees (Server.reads c.reader) log held

/-- What a cursor stands for: a state the store agrees with while it lasts, or how far each resource was
read. -/
inductive Stands (w : World ε) (held : ProviderKey → Option ε) (cursor : SyncState) : Prop
  | ctag (n : Nat) : cursor = ctagCursor (sv.ctagOf n) → sv.offersCtag = true → n ≤ w.log.length →
      (w.log.length = n → Agreed c w.log held) → Stands w held cursor
  | token (known : String → Nat) : w.issued cursor = some known → (∀ h, known h ≤ w.log.length) →
      (∀ h, CoversAt (Server.reads c.reader) w.log (known h) h (held h)) → Stands w held cursor

structure Inv (w : World ε) : Prop where
  members : ∀ change ∈ w.log, sv.member change.1 = true
  issued : ∀ token known, w.issued token = some known →
    sv.doesSync = true ∧ token.isEmpty = false ∧ startsAsCtag token = false ∧
      ∀ h, known h ≤ w.log.length
  listed : ∀ i n, w.listed i = some n → n ≤ w.log.length
  cursor : ∀ cursor, w.cursor c.scope = some cursor → Stands sv c w (w.held c.scope) cursor
  tag : ∀ tag, w.tag c.scope = some tag → ∃ n, n ≤ w.log.length ∧ tag = sv.tagOf n ∧
    (w.log.length = n → Agreed c w.log (w.held c.scope))

end Invariant

/-! ## What a pass relies on -/

section Rely

variable (scope : SyncScope)

structure Rely (i : Nat) (w w' : World ε) : Prop where
  log : w.log <+: w'.log
  issued : ∀ token known, w.issued token = some known → w'.issued token = some known
  token : w.token scope ≤ w'.token scope
  fenced : w.token scope = w'.token scope → w'.holder = w.holder ∧
    (w.holder = i → w'.held scope = w.held scope)
  listed : w'.listed i = w.listed i

variable {scope} {i : Nat} {w w₁ w₂ w' : World ε}

theorem Rely.refl (i : Nat) (w : World ε) : Rely scope i w w where
  log := List.prefix_refl _
  issued _ _ h := h
  token := Nat.le_refl _
  fenced _ := ⟨rfl, fun _ => rfl⟩
  listed := rfl

theorem Rely.trans (h₁ : Rely scope i w w₁) (h₂ : Rely scope i w₁ w₂) : Rely scope i w w₂ where
  log := h₁.log.trans h₂.log
  issued token known h := h₂.issued token known (h₁.issued token known h)
  token := Nat.le_trans h₁.token h₂.token
  fenced h := by
    have hle₁ := h₁.token
    have hle₂ := h₂.token
    obtain ⟨hh₁, hs₁⟩ := h₁.fenced (by omega)
    obtain ⟨hh₂, hs₂⟩ := h₂.fenced (by omega)
    refine ⟨hh₂.trans hh₁, ?_⟩
    intro hi
    exact (hs₂ (hh₁.trans hi)).trans (hs₁ hi)
  listed := h₂.listed.trans h₁.listed

end Rely

/-! ## Steps that leave the scope as it is -/

/-- Everything the passes look at is the same, the fence among it. -/
structure Same (scope : SyncScope) (w w' : World ε) : Prop where
  log : w'.log = w.log
  issued : w'.issued = w.issued
  listed : w'.listed = w.listed
  holder : w'.holder = w.holder
  token : w'.token scope = w.token scope
  cursor : w'.cursor scope = w.cursor scope
  tag : w'.tag scope = w.tag scope
  held : w'.held scope = w.held scope

section Same

variable {sv : Server} {c : Synced ε} {w w' : World ε}

theorem Same.refl (scope : SyncScope) (w : World ε) : Same scope w w := ⟨rfl, rfl, rfl, rfl, rfl, rfl, rfl, rfl⟩

theorem Same.rely {scope : SyncScope} (h : Same scope w w') (i : Nat) : Rely scope i w w' where
  log := by rw [h.log]
  issued token known ht := by rwa [h.issued]
  token := by rw [h.token]
  fenced _ := ⟨h.holder, fun _ => h.held⟩
  listed := by rw [h.listed]

theorem Stands.grow {held : ProviderKey → Option ε} {cursor : SyncState}
    (h : Stands sv c w held cursor) (hlog : w.log <+: w'.log)
    (hissued : ∀ token known, w.issued token = some known → w'.issued token = some known) :
    Stands sv c w' held cursor := by
  cases h with
  | ctag n hcur hoffers hn hagree =>
    refine .ctag n hcur hoffers (Nat.le_trans hn hlog.length_le) ?_
    intro he
    have hlen := hlog.length_le
    have hsame : w.log.length = n := by omega
    have hsame' := hlog.eq_of_length (by omega)
    rw [← hsame']
    exact hagree hsame
  | token known hi hle hcovers =>
    refine .token known (hissued cursor known hi) ?_ ?_
    · exact fun h => Nat.le_trans (hle h) hlog.length_le
    · exact fun h => (hcovers h).grow hlog (hle h)

theorem Inv.of_parts (hinv : Inv sv c w) (hlog : w'.log = w.log) (hissued : w'.issued = w.issued)
    (hlisted : w'.listed = w.listed) (hcursor : w'.cursor c.scope = w.cursor c.scope)
    (htag : w'.tag c.scope = w.tag c.scope) (hheld : w'.held c.scope = w.held c.scope) :
    Inv sv c w' where
  members := by
    rw [hlog]
    exact hinv.members
  issued := by
    rw [hlog, hissued]
    exact hinv.issued
  listed := by
    rw [hlog, hlisted]
    exact hinv.listed
  cursor := by
    rw [hcursor, hheld]
    intro cursor hcur
    refine (hinv.cursor cursor hcur).grow (by rw [hlog]) ?_
    rw [hissued]
    exact fun _ _ ht => ht
  tag := by
    rw [hlog, htag, hheld]
    exact hinv.tag

theorem Inv.of_same (hinv : Inv sv c w) (h : Same c.scope w w') : Inv sv c w' :=
  hinv.of_parts h.log h.issued h.listed h.cursor h.tag h.held

end Same

/-! ## The setting -/

section Setting

variable (sv : Server) (c : Synced ε)

/-- An answer that is not cut off. -/
def Uncut : (q : Request ε) → q.Answer → Prop
  | .report _, .ok ms => sv.truncated ms = false
  | _, _ => True

/-- No cut-off answer to a request without a token leaves out a stored member that is still there, and
none comes to a pass that has a tag of the state it is given in. -/
def Sparing (i : Nat) (w : World ε) : (q : Request ε) → q.Answer → Prop
  | .report token, .ok ms => sv.truncated ms = true → ms.syncToken.isSome = true →
      (token.isEmpty = true → ∀ k, (w.held c.scope k).isSome = true → value w.log k ≠ none →
        k ∈ ms.names) ∧
      w.listed i ≠ some w.log.length
  | _, _ => True

def StoreObliges : (q : Drivers.Ask (fetching ε)) → q.Answer → Prop
  | .read (.expansionWindow _), a => a.isOk = true
  | .read (.other _), a => a.isOk = true
  | .claimSyncScope _ _ _, a => a.isOk = true
  | .releaseSyncScope _, a => a.isOk = true
  | .setExpansionWindow _ _, a => ∀ e, a = .error e → e = .staleLease
  | .applySyncUpdate _ _, a => ∀ e, a = .error e → e = .staleLease
  | _, _ => True

/-- No request fails that the server offers to answer, the scope is not held by anybody else, and a token
may be rejected. -/
def Obliges : (q : Request ε) → q.Answer → Prop
  | .store q, a => StoreObliges q a
  | .listing, a => a.isOk = true
  | .report token, a =>
    if sv.doesSync then
      (∃ ms, a = .ok ms ∧ ms.syncToken.isSome = true) ∨
        (token.isEmpty = false ∧ ∃ e, a = .error e ∧ e.failureClass = .needsResync)
    else (∃ ms, a = .ok ms ∧ ms.syncToken = none) ∨
      ∃ e, a = .error e ∧ e.refusesSyncCollection token.isEmpty = true
  | .ctag, a | .members, a | .multiget _, a => a.isOk = true
  | .arrivals _, _ => True

/-- No token is rejected. -/
def Honours : (q : Request ε) → q.Answer → Prop
  | .report _, .error e => e.failureClass ≠ .needsResync
  | _, _ => True

/-- Which answers are left out, and the pass nothing happens beside, if there is one. -/
structure Mode where
  whole : Bool
  obliging : Bool
  honouring : Bool
  solo : Option Nat

def setting (mode : Mode) : Setting (Request ε) Request.Answer (World ε) where
  serves i w q a w' := sv.Serves i w q a w' ∧ Sparing sv c i w q a ∧
    (mode.whole = true → Uncut sv q a) ∧ (mode.obliging = true → Obliges sv q a) ∧
    (mode.honouring = true → Honours q a)
  rely i w w' := Rely c.scope i w w' ∧ (mode.solo = some i → w = w')
  inv := Inv sv c
  refl i w := ⟨Rely.refl i w, fun _ => rfl⟩
  trans _ _ _ _ h₁ h₂ := ⟨h₁.1.trans h₂.1, fun hs => (h₁.2 hs).trans (h₂.2 hs)⟩

/-- What a step takes from the store was gone from the collection at some time since `lo`. -/
def Safe (lo : Nat) (step : Served (Request ε) Request.Answer (World ε)) : Prop :=
  ∀ k, (step.before.held c.scope k).isSome = true → step.after.held c.scope k = none →
    Found step.after.log lo k none

end Setting

end Dav
end SyncEngine
