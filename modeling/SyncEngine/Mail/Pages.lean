import SyncEngine.Mail.Pass
import SyncEngine.Library.Lists

/-!
# Pages and chunks

An adapter that fetches a page whole cuts it into chunks, each of which holds the cursor.  What the
page carries besides its messages rides on the first.
-/

namespace SyncEngine
namespace Mail

/-!
## What a streamed pass leaves

Chunks committed in turn under a window, seen one key at a time.  Only additive chunks are filtered by
the window.  Where no chunk sends a message twice, what stands under its key is its last copy.
-/

variable {γ : Type}

namespace EmailChunk

def within (c : EmailChunk γ) (window : SyncWindow) : EmailChunk γ :=
  match c.mode with
  | .additive => { c with changed := admitted c.changed window }
  | .reconcile => c

variable (c : EmailChunk γ)

theorem within_full : c.within .full = c := by
  obtain ⟨mode, _⟩ := c
  cases mode <;> rfl

theorem removed_within (window : SyncWindow) : (c.within window).removed = c.removed := by
  unfold within
  cases c.mode <;> rfl

theorem patched_within (window : SyncWindow) : (c.within window).patched = c.patched := by
  unfold within
  cases c.mode <;> rfl

/-- The keys a chunk that does not end a pass counts as present. -/
def covers (c : EmailChunk γ) : List ProviderKey := if c.mode = .reconcile then c.present else []

end EmailChunk

section Commit

variable [MailContent γ] (kind : StoreKind) (window : SyncWindow)

variable (s : ScopeCell γ × List ProviderKey)

theorem told_commitChunk (c : EmailChunk γ) (h : c.isReconcileFinal = false) (k : ProviderKey) :
    (commitChunk kind window s c).1.told k = (s.1.told k).addChunk (c.within window) k := by
  unfold commitChunk buildUpdate EmailChunk.within
  unfold EmailChunk.isReconcileFinal at h
  cases hmode : c.mode with
  | additive =>
    exact told_commit_delta kind s.1 { c with changed := admitted c.changed window } _ k
  | reconcile =>
    have hnone : c.advanceTo.isSome = false := by simpa [hmode] using h
    simp only [hnone, Bool.false_eq_true, if_false]
    exact told_commit_delta kind s.1 c _ k

theorem told_commitChunk_final (c : EmailChunk γ) (h : c.isReconcileFinal = true) (k : ProviderKey) :
    (commitChunk kind window s c).1.told k = (s.1.told k).close (c.sentAt k) (s.2 ++ c.present) k := by
  unfold EmailChunk.isReconcileFinal at h
  rw [Bool.and_eq_true, decide_eq_true_iff] at h
  unfold commitChunk buildUpdate
  simp only [h.1, h.2, if_true]
  exact told_commit_snapshot kind s.1 c.changed (s.2 ++ c.present) _ k

variable (chunks : List (EmailChunk γ))

theorem told_commitChunks (h : ∀ c ∈ chunks, c.isReconcileFinal = false) (s : ScopeCell γ × List ProviderKey)
    (k : ProviderKey) :
    (chunks.foldl (commitChunk kind window) s).1.told k =
      (chunks.map (EmailChunk.within · window)).foldl (fun t c => t.addChunk c k) (s.1.told k) := by
  induction chunks generalizing s with
  | nil => rfl
  | cons c chunks ih =>
    rw [List.foldl_cons, List.map_cons, List.foldl_cons, ih fun d hd => h d (List.mem_cons_of_mem c hd),
      told_commitChunk kind window s c (h c List.mem_cons_self)]

theorem present_commitChunks (h : ∀ c ∈ chunks, c.isReconcileFinal = false) (s : ScopeCell γ × List ProviderKey) :
    (chunks.foldl (commitChunk kind window) s).2 = s.2 ++ chunks.flatMap EmailChunk.covers := by
  induction chunks generalizing s with
  | nil => simp
  | cons c chunks ih =>
    have hstep : (commitChunk kind window s c).2 = s.2 ++ c.covers := by
      have hc := present_commitChunk kind window s.1 s.2 c (h c List.mem_cons_self)
      rw [hc, EmailChunk.covers]
      by_cases hmode : c.mode = .reconcile
      · rw [if_pos hmode, if_pos hmode]
      · rw [if_neg hmode, if_neg hmode, List.append_nil]
    rw [List.foldl_cons, ih (fun d hd => h d (List.mem_cons_of_mem c hd)), hstep, List.flatMap_cons, List.append_assoc]

variable (cell : ScopeCell γ) {init : List (EmailChunk γ)} {last : EmailChunk γ}

theorem told_streamed (h : ∀ c ∈ init, c.isReconcileFinal = false) (k : ProviderKey) :
    (streamed kind window cell init).told k =
      (init.map (EmailChunk.within · window)).foldl (fun t c => t.addChunk c k) (cell.told k) :=
  told_commitChunks kind window init h (cell, []) k

theorem told_streamed_final (h : ∀ c ∈ init, c.isReconcileFinal = false)
    (hlast : last.isReconcileFinal = true) (k : ProviderKey) :
    (streamed kind window cell (init ++ [last])).told k =
      ((init.map (EmailChunk.within · window)).foldl (fun t c => t.addChunk c k)
        (cell.told k)).close (last.sentAt k) (init.flatMap EmailChunk.covers ++ last.present) k := by
  unfold streamed
  rw [List.foldl_append, List.foldl_cons, List.foldl_nil,
    told_commitChunk_final kind window _ last hlast, told_commitChunks kind window init h,
    present_commitChunks kind window init h, List.nil_append]

theorem state_streamed {cursor : SyncState} (h : last.advanceTo = some cursor) :
    (streamed kind window cell (init ++ [last])).state = some (window.stamp cursor) := by
  unfold streamed
  rw [List.foldl_append, List.foldl_cons, List.foldl_nil]
  have hstate := state_commitChunk kind window (init.foldl (commitChunk kind window) (cell, [])).1
    (init.foldl (commitChunk kind window) (cell, [])).2 last
  rw [hstate, h]
  rfl

end Commit

/-! ## The last copy -/

def changesTo (patched : List MailStateChange) (k : ProviderKey) : List MailStateRow :=
  (patched.map projectStateChange).filter fun p => p.key = k

theorem changesTo_eq_nil {patched : List MailStateChange} {k : ProviderKey}
    (h : k ∉ patched.map MailStateChange.key) : changesTo patched k = [] := by
  unfold changesTo
  rw [List.filter_eq_nil_iff]
  intro p hp he
  obtain ⟨c, hc, rfl⟩ := List.mem_map.mp hp
  have hkey : c.key = k := of_decide_eq_true he
  exact h (List.mem_map.mpr ⟨c, hc, hkey⟩)

theorem flatMap_changesAt (chunks : List (EmailChunk γ)) (k : ProviderKey) :
    (chunks.flatMap fun c => c.changesAt k) = changesTo (chunks.flatMap EmailChunk.patched) k := by
  unfold changesTo
  rw [List.map_flatMap, List.filter_flatMap]
  rfl

namespace Told

variable {c : MailStateRow}

theorem change_change (s : Told γ) (h : c.mailboxes = none) : (s.change c).change c = s.change c := by
  obtain ⟨object, row, memberships⟩ := s
  cases row with
  | none => rfl
  | some row =>
    have hrow : ScopeCell.withState (ScopeCell.withState row c) c = ScopeCell.withState row c := by
      unfold ScopeCell.withState RevisionTokens.or
      simp only [← Option.or_assoc, Option.or_self]
    have hmemberships : changedMemberships c (changedMemberships c memberships) = changedMemberships c memberships := by
      unfold changedMemberships replaceKind
      simp only [h]
      ext r
      simp only [Finset.mem_union, Finset.mem_filter, List.mem_toFinset, List.mem_map]
      constructor
      · rintro (⟨hr | hr, -⟩ | hr)
        · exact .inl hr
        · exact .inr hr
        · exact .inr hr
      · rintro (hr | hr)
        · exact .inl ⟨.inl hr, hr.2⟩
        · exact .inr hr
    show Told.mk _ (some (ScopeCell.withState (ScopeCell.withState row c) c)) _ = _
    rw [hrow]
    exact congrArg (Told.mk _ _) hmemberships

theorem foldl_same {changes : List MailStateRow} (hc : c ∈ changes)
    (hsame : ∀ c' ∈ changes, c' = c) (h : c.mailboxes = none) (s : Told γ) :
    changes.foldl change s = s.change c := by
  have hfold : ∀ (rest : List MailStateRow) (s : Told γ), (∀ c' ∈ rest, c' = c) →
      rest.foldl change (s.change c) = s.change c := by
    intro rest
    induction rest with
    | nil => intro s _; rfl
    | cons c' rest ih =>
      intro s hrest
      rw [List.foldl_cons, hrest c' List.mem_cons_self, change_change s h]
      exact ih s fun c'' hc'' => hrest c'' (List.mem_cons_of_mem c' hc'')
  cases changes with
  | nil => exact absurd hc List.not_mem_nil
  | cons first rest =>
    rw [List.foldl_cons, hsame first List.mem_cons_self]
    exact hfold rest s fun c' hc' => hsame c' (List.mem_cons_of_mem first hc')

end Told

/-- The copies of a message in one chunk are the same. -/
def EmailChunk.Alike (c : EmailChunk γ) : Prop :=
  ∀ x ∈ c.changed, ∀ y ∈ c.changed, x.key = y.key → x = y

variable {c : EmailChunk γ}

theorem EmailChunk.alike_of_nodup (h : (c.changed.map Message.key).Nodup) : c.Alike :=
  fun _ hx _ hy hkey => List.inj_on_of_nodup_map h hx hy hkey

theorem Told.asSent_alike {sent : List (Message γ)} {m : Message γ} (hm : m ∈ sent)
    (h : ∀ x ∈ sent, x = m) (removed : Bool) : asSent sent removed = asSent [m] removed := by
  have hlast : sent.getLast? = some m := by
    cases hlast : sent.getLast? with
    | none => exact absurd (List.getLast?_eq_none_iff.mp hlast) (List.ne_nil_of_mem hm)
    | some x => rw [h x (List.mem_of_getLast? hlast)]
  have hrows : rowsOf sent = rowsOf [m] := by
    ext r
    simp only [rowsOf, List.mem_toFinset, List.mem_flatMap, List.mem_singleton, exists_eq_left]
    constructor
    · rintro ⟨x, hx, hr⟩
      rwa [h x hx] at hr
    · intro hr
      exact ⟨m, hm, hr⟩
  unfold asSent
  rw [hlast, hrows]
  rfl

variable {chunks : List (EmailChunk γ)}

theorem Told.sentOr_eq_elim (sent : Option (Message γ)) (s : Told γ) : (match sent with
      | some m => asSent [m] false
      | none => s) = sent.elim s fun m => asSent [m] false := by
  cases sent <;> rfl

/-- Chunks that send no message in two versions, and none whose state a chunk moves or whose key one
removes: a message sent is left as its last copy, and any other key is removed or moved. -/
theorem Told.foldl_apart (halike : ∀ c ∈ chunks, c.Alike) (hapart : ∀ m ∈ chunks.flatMap EmailChunk.changed,
      m.key ∉ chunks.flatMap EmailChunk.removed ∧ m.key ∉ (chunks.flatMap EmailChunk.patched).map MailStateChange.key)
    (s : Told γ) (k : ProviderKey) :
    chunks.foldl (fun t c => t.addChunk c k) s =
      match latest Message.key (chunks.flatMap EmailChunk.changed) k with
      | some m => asSent [m] false
      | none => (changesTo (chunks.flatMap EmailChunk.patched) k).foldl change
          (if k ∈ chunks.flatMap EmailChunk.removed then nothing else s) := by
  have hlatest : latest Message.key (chunks.flatMap EmailChunk.changed) k =
      (chunks.flatMap fun c => c.sentAt k).getLast? := by
    unfold latest
    rw [List.filter_flatMap]
    rfl
  by_cases hunsent : ∀ c ∈ chunks, c.sentAt k = []
  · rw [hlatest, foldl_unsent hunsent, List.flatMap_eq_nil_iff.mpr hunsent, flatMap_changesAt]
    simp only [List.getLast?_nil, List.mem_flatMap]
    by_cases hremoved : ∃ c ∈ chunks, k ∈ c.removed
    · rw [if_pos hremoved, if_pos hremoved, foldl_change_nothing]
    · rw [if_neg hremoved, if_neg hremoved]
  · obtain ⟨before, c, after, hcut, hc, hafter⟩ := exists_last_sender hunsent
    obtain ⟨m, hm⟩ := List.exists_mem_of_ne_nil _ hc
    obtain ⟨hm, hkey⟩ := List.mem_filter.mp hm
    have hkey : m.key = k := of_decide_eq_true hkey
    have hmem : m ∈ chunks.flatMap EmailChunk.changed := List.mem_flatMap.mpr ⟨c, by simp [hcut], hm⟩
    obtain ⟨hremoved, hpatched⟩ := hapart m hmem
    rw [hkey] at hremoved hpatched
    have hunremoved : ∀ d ∈ chunks, k ∉ d.removed := fun d hd hk => hremoved (List.mem_flatMap.mpr ⟨d, hd, hk⟩)
    have hnothing : (after.flatMap fun d => d.changesAt k) = [] := by
      have hall : (chunks.flatMap fun d => d.changesAt k) = [] := by rw [flatMap_changesAt, changesTo_eq_nil hpatched]
      rw [List.flatMap_eq_nil_iff] at hall ⊢
      exact fun d hd => hall d (by simp [hcut, hd])
    have hnone : ¬∃ d ∈ after, k ∈ d.removed := fun ⟨d, hd, hk⟩ => hunremoved d (by simp [hcut, hd]) hk
    have hkept : decide (k ∈ c.removed) = false := decide_eq_false (hunremoved c (by simp [hcut]))
    rw [hlatest, hcut, foldl_sent hc hafter, if_neg hnone, hnothing, getLast?_sentAt hc hafter, hkept]
    have hsent : m ∈ c.sentAt k := List.mem_filter.mpr ⟨hm, decide_eq_true hkey⟩
    have hsame : ∀ x ∈ c.sentAt k, x = m := by
      intro x hx
      obtain ⟨hx, hxkey⟩ := List.mem_filter.mp hx
      exact halike c (by simp [hcut]) x hx m hm ((of_decide_eq_true hxkey : x.key = k).trans hkey.symm)
    have hlast : (c.sentAt k).getLast? = some m := by
      cases hlast : (c.sentAt k).getLast? with
      | none => exact absurd (List.getLast?_eq_none_iff.mp hlast) hc
      | some x => rw [hsame x (List.mem_of_getLast? hlast)]
    rw [hlast, asSent_alike hsent hsame]
    rfl

theorem admitted_eq_filter (messages : List (Message γ)) (window : SyncWindow) :
    admitted messages window = messages.filter fun m => window.admits m.date := by
  unfold admitted
  by_cases h : window.isBounded = true
  · rw [if_pos h]
  · rw [if_neg h]
    symm
    rw [List.filter_eq_self]
    intro m _
    unfold SyncWindow.isBounded at h
    unfold SyncWindow.admits
    cases hsince : window.since with
    | none => rfl
    | some floor => simp [hsince] at h

theorem EmailChunk.Alike.within (h : c.Alike) (window : SyncWindow) : (c.within window).Alike := by
  unfold EmailChunk.within
  cases c.mode with
  | additive =>
    intro x hx y hy
    have hmem : ∀ z ∈ admitted c.changed window, z ∈ c.changed := by
      intro z hz
      rw [admitted_eq_filter] at hz
      exact (List.mem_filter.mp hz).1
    exact h x (hmem x hx) y (hmem y hy)
  | reconcile => exact h

theorem flatMap_within (h : ∀ c ∈ chunks, c.mode = .additive) (window : SyncWindow) :
    (chunks.map (EmailChunk.within · window)).flatMap EmailChunk.changed =
      (chunks.flatMap EmailChunk.changed).filter fun m => window.admits m.date := by
  rw [List.flatMap_map, List.filter_flatMap]
  apply List.flatMap_congr
  intro c hc
  unfold EmailChunk.within
  rw [h c hc]
  exact admitted_eq_filter c.changed window

end Mail

namespace Mail

variable {γ : Type}

namespace EmailChunk

def additive (changed : List (Message γ)) (removed : List ProviderKey) (total : Option Nat)
    (cursor : SyncState) : EmailChunk γ :=
  ⟨.additive, changed, [], removed, [], total, some cursor⟩

def additiveHeld (changed : List (Message γ)) (removed : List ProviderKey) (total : Option Nat) :
    EmailChunk γ :=
  ⟨.additive, changed, [], removed, [], total, none⟩

def reconcileLast (changed : List (Message γ)) (present : List ProviderKey) (total : Option Nat)
    (cursor : SyncState) : EmailChunk γ :=
  ⟨.reconcile, changed, [], [], present, total, some cursor⟩

end EmailChunk

inductive SyncKind
  | snapshot
  | delta
deriving DecidableEq, Repr

def SyncKind.mode : SyncKind → PassMode
  | snapshot => .reconcile
  | delta => .additive

/-- One page of a pass.  `nextPage` is the UID boundary the page after it starts from. -/
structure SyncPage (γ : Type) where
  kind : SyncKind
  changed : List (Message γ)
  patched : List MailStateChange
  removed : List ProviderKey
  present : List ProviderKey
  nextPage : Option Nat
  nextCursor : SyncState
  total : Option Nat

def pageChunk (mode : PassMode) (total : Option Nat) (batch : List (Message γ))
    (patched : List MailStateChange) (removed present : List ProviderKey) : EmailChunk γ :=
  match mode with
  | .additive => { EmailChunk.additiveHeld batch removed total with patched := patched }
  | .reconcile => ⟨.reconcile, batch, patched, removed, present, total, none⟩

def splitPage (mode : PassMode) (changed : List (Message γ)) (patched : List MailStateChange)
    (removed present : List ProviderKey) (total : Option Nat) (chunkSize : Nat) :
    List (EmailChunk γ) :=
  let step := if chunkSize = 0 then changed.length else chunkSize
  match chunks (max step 1) changed with
  | [] =>
    if patched.isEmpty && removed.isEmpty && present.isEmpty then []
    else [pageChunk mode total [] patched removed present]
  | batch :: batches =>
    pageChunk mode total batch patched removed present ::
      batches.map fun batch => pageChunk mode total batch [] [] []

/-! ## What the chunks of a page carry -/

section SplitPage

variable (mode : PassMode) (changed : List (Message γ)) (patched : List MailStateChange)
  (removed present : List ProviderKey) (total : Option Nat) (chunkSize : Nat)

theorem flatMap_changed_pageChunk (batches : List (List (Message γ))) :
    (batches.map fun batch => pageChunk mode total batch [] [] []).flatMap EmailChunk.changed = batches.flatten := by
  induction batches with
  | nil => rfl
  | cons batch batches ih =>
    rw [List.map_cons, List.flatMap_cons, ih, List.flatten_cons]
    cases mode <;> rfl

variable {α : Type} (part : EmailChunk γ → List α)

theorem flatMap_pageChunk (h : ∀ batch, part (pageChunk mode total batch [] [] []) = [])
    (batches : List (List (Message γ))) :
    (batches.map fun batch => pageChunk mode total batch [] [] []).flatMap part = [] := by
  rw [List.flatMap_eq_nil_iff]
  intro c hc
  obtain ⟨batch, -, rfl⟩ := List.mem_map.mp hc
  exact h batch

theorem changed_splitPage :
    (splitPage mode changed patched removed present total chunkSize).flatMap EmailChunk.changed = changed := by
  have hpos : 0 < max (if chunkSize = 0 then changed.length else chunkSize) 1 := by omega
  have hflat := flatten_chunks hpos changed
  unfold splitPage
  dsimp only
  cases hbatches : chunks (max (if chunkSize = 0 then changed.length else chunkSize) 1) changed with
  | nil =>
    rw [hbatches] at hflat
    subst hflat
    by_cases h : (patched.isEmpty && removed.isEmpty && present.isEmpty) = true
    · rw [if_pos h]
      rfl
    · rw [if_neg h]
      cases mode <;> rfl
  | cons batch batches =>
    rw [hbatches, List.flatten_cons] at hflat
    rw [List.flatMap_cons, flatMap_changed_pageChunk]
    cases mode <;> exact hflat

theorem flatMap_splitPage (whole : List α)
    (hwhole : ∀ batch, part (pageChunk mode total batch patched removed present) = whole)
    (hnone : ∀ batch, part (pageChunk mode total batch [] [] []) = []) :
    (splitPage mode changed patched removed present total chunkSize).flatMap part = whole := by
  unfold splitPage
  dsimp only
  cases hbatches : chunks (max (if chunkSize = 0 then changed.length else chunkSize) 1) changed with
  | nil =>
    by_cases h : (patched.isEmpty && removed.isEmpty && present.isEmpty) = true
    · rw [if_pos h]
      simp only [Bool.and_eq_true, List.isEmpty_iff] at h
      rw [← hwhole [], h.1.1, h.1.2, h.2, hnone]
      rfl
    · rw [if_neg h, List.flatMap_cons, hwhole, List.flatMap_nil, List.append_nil]
  | cons batch batches =>
    rw [List.flatMap_cons, hwhole, flatMap_pageChunk mode total part hnone, List.append_nil]

theorem patched_splitPage :
    (splitPage mode changed patched removed present total chunkSize).flatMap EmailChunk.patched = patched := by
  apply flatMap_splitPage
  · intro batch
    cases mode <;> rfl
  · intro batch
    cases mode <;> rfl

theorem removed_splitPage :
    (splitPage mode changed patched removed present total chunkSize).flatMap EmailChunk.removed = removed := by
  apply flatMap_splitPage
  · intro batch
    cases mode <;> rfl
  · intro batch
    cases mode <;> rfl

theorem covers_splitPage : (splitPage mode changed patched removed present total chunkSize).flatMap EmailChunk.covers =
      if mode = .reconcile then present else [] := by
  apply flatMap_splitPage
  · intro batch
    cases mode <;> rfl
  · intro batch
    cases mode <;> rfl

theorem mem_splitPage {c : EmailChunk γ} (h : c ∈ splitPage mode changed patched removed present total chunkSize) :
    c.mode = mode ∧ c.advanceTo = none ∧ c.changed.Sublist changed := by
  have hpos : 0 < max (if chunkSize = 0 then changed.length else chunkSize) 1 := by omega
  have hchunk : ∀ batch patched removed present, batch.Sublist changed →
      (pageChunk mode total batch patched removed present).mode = mode ∧
        (pageChunk mode total batch patched removed present).advanceTo = none ∧
        (pageChunk mode total batch patched removed present).changed.Sublist changed := by
    intro batch patched removed present hbatch
    cases mode <;> exact ⟨rfl, rfl, hbatch⟩
  unfold splitPage at h
  dsimp only at h
  cases hbatches : chunks (max (if chunkSize = 0 then changed.length else chunkSize) 1) changed with
  | nil =>
    rw [hbatches] at h
    dsimp only at h
    split at h
    · exact absurd h List.not_mem_nil
    · rw [List.mem_singleton.mp h]
      exact hchunk _ _ _ _ (List.nil_sublist changed)
  | cons batch batches =>
    have hsub : ∀ b ∈ batch :: batches, b.Sublist changed := by
      intro b hb
      rw [← hbatches] at hb
      exact sublist_of_mem_chunks hpos hb
    rw [hbatches] at h
    dsimp only at h
    rcases List.mem_cons.mp h with rfl | h
    · exact hchunk _ _ _ _ (hsub batch List.mem_cons_self)
    · obtain ⟨b, hb, rfl⟩ := List.mem_map.mp h
      exact hchunk _ _ _ _ (hsub b (List.mem_cons_of_mem batch hb))

end SplitPage

/-! ## What pages leave -/

section Leaves

variable [MailContent γ] (kind : StoreKind) (window : SyncWindow) (cell : ScopeCell γ)
  {init : List (EmailChunk γ)} {total : Option Nat} {cursor : SyncState}

theorem told_additivePages (hmode : ∀ c ∈ init, c.mode = .additive) (halike : ∀ c ∈ init, c.Alike)
    (hapart : ∀ m ∈ init.flatMap EmailChunk.changed, m.key ∉ init.flatMap EmailChunk.removed ∧
      m.key ∉ (init.flatMap EmailChunk.patched).map MailStateChange.key) (k : ProviderKey) :
    (streamed kind window cell (init ++ [.additive [] [] total cursor])).told k =
      match latest Message.key
        ((init.flatMap EmailChunk.changed).filter fun m => window.admits m.date) k with
      | some m => Told.asSent [m] false
      | none => (changesTo (init.flatMap EmailChunk.patched) k).foldl Told.change
          (if k ∈ init.flatMap EmailChunk.removed then Told.nothing else cell.told k) := by
  have hmode' : ∀ c ∈ init ++ [EmailChunk.additive [] [] total cursor], c.mode = .additive := by
    intro c hc
    rcases List.mem_append.mp hc with hc | hc
    · exact hmode c hc
    · rw [List.mem_singleton.mp hc]
      rfl
  have hfinal : ∀ c ∈ init ++ [EmailChunk.additive [] [] total cursor], c.isReconcileFinal = false := by
    intro c hc
    rw [EmailChunk.isReconcileFinal, hmode' c hc]
    rfl
  have hpatched : ((init ++ [EmailChunk.additive [] [] total cursor]).map
      (EmailChunk.within · window)).flatMap EmailChunk.patched = init.flatMap EmailChunk.patched := by
    rw [List.flatMap_map, List.flatMap_congr fun c _ => EmailChunk.patched_within c window]
    simp [EmailChunk.additive]
  have hremoved : ((init ++ [EmailChunk.additive [] [] total cursor]).map
      (EmailChunk.within · window)).flatMap EmailChunk.removed = init.flatMap EmailChunk.removed := by
    rw [List.flatMap_map, List.flatMap_congr fun c _ => EmailChunk.removed_within c window]
    simp [EmailChunk.additive]
  have hchanged : ((init ++ [EmailChunk.additive [] [] total cursor]).map
      (EmailChunk.within · window)).flatMap EmailChunk.changed =
        (init.flatMap EmailChunk.changed).filter fun m => window.admits m.date := by
    rw [flatMap_within hmode']
    simp [EmailChunk.additive]
  rw [told_streamed kind window cell hfinal, Told.foldl_apart, hchanged, hpatched, hremoved]
  · intro c hmapped
    obtain ⟨c, hc, rfl⟩ := List.mem_map.mp hmapped
    apply EmailChunk.Alike.within
    rcases List.mem_append.mp hc with hc | hc
    · exact halike c hc
    · rw [List.mem_singleton.mp hc]
      exact fun x hx => absurd hx List.not_mem_nil
  · rw [hchanged, hpatched, hremoved]
    exact fun m hm => hapart m (List.mem_filter.mp hm).1

theorem told_reconcilePages (hheld : ∀ c ∈ init, c.mode = .reconcile ∧ c.advanceTo = none) (halike : ∀ c ∈ init, c.Alike)
    (hapart : ∀ m ∈ init.flatMap EmailChunk.changed, m.key ∉ init.flatMap EmailChunk.removed ∧
      m.key ∉ (init.flatMap EmailChunk.patched).map MailStateChange.key) (k : ProviderKey) :
    (streamed kind window cell (init ++ [.reconcileLast [] [] total cursor])).told k = Told.close
        (match latest Message.key (init.flatMap EmailChunk.changed) k with
        | some m => Told.asSent [m] false
        | none => (changesTo (init.flatMap EmailChunk.patched) k).foldl Told.change
            (if k ∈ init.flatMap EmailChunk.removed then Told.nothing else cell.told k))
        [] (init.flatMap EmailChunk.covers) k := by
  have hfinal : ∀ c ∈ init, c.isReconcileFinal = false := by
    intro c hc
    rw [EmailChunk.isReconcileFinal, (hheld c hc).2]
    simp
  have hwithin : init.map (EmailChunk.within · window) = init := by
    have hid : ∀ c ∈ init, c.within window = c := by
      intro c hc
      unfold EmailChunk.within
      rw [(hheld c hc).1]
    calc init.map (EmailChunk.within · window) = init.map id := List.map_congr_left hid
      _ = init := List.map_id init
  rw [told_streamed_final kind window cell hfinal rfl, hwithin, Told.foldl_apart halike hapart]
  show Told.close _ [] (_ ++ []) k = _
  rw [List.append_nil]

end Leaves

end Mail
end SyncEngine
