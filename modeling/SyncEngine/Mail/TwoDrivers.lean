import SyncEngine.Mail.Pages

/-!
# When draining a pass is streaming it

A pass of one mode, committed by either driver with no window.  The condition for both to leave the
same is about the chunks alone, one key at a time.
-/

namespace SyncEngine
namespace Mail

variable {γ : Type}

/-- The chunks of one pass: one mode, and a cursor at the end, which is the only one where the pass
reconciles. -/
structure OnePass (mode : PassMode) (init : List (EmailChunk γ)) (last : EmailChunk γ) : Prop where
  modes : ∀ c ∈ init ++ [last], c.mode = mode
  cursor : last.advanceTo.isSome
  held : mode = .reconcile → ∀ c ∈ init, c.advanceTo = none

/-- The chunks after the one that sends a message last leave it as sent, under the memberships of all
its sendings. -/
structure Rests (chunks : List (EmailChunk γ)) (c : EmailChunk γ) (after : List (EmailChunk γ))
    (k : ProviderKey) : Prop where
  kept : ∀ d ∈ after, k ∉ d.removed
  settled : (after.flatMap fun d => d.changesAt k).foldl Told.change
      (Told.asSent (c.sentAt k) (k ∈ c.removed)) =
    { Told.asSent (c.sentAt k) (k ∈ c.removed) with
      memberships := Told.rowsOf (chunks.flatMap fun d => d.sentAt k) }

/-- An additive pass removes a message it sends, if at all, in the chunk that sends it last, and rests
then. -/
def AgreesAdditive (chunks : List (EmailChunk γ)) (k : ProviderKey) : Prop :=
  ∀ before c after, chunks = before ++ c :: after → c.sentAt k ≠ [] →
    (∀ d ∈ after, d.sentAt k = []) →
      Rests chunks c after k ∧ ((∃ d ∈ before, k ∈ d.removed) → k ∈ c.removed)

/-- Over what stands under a key, a reconciling pass that never sends it leaves it as it is, and one
that sends it last before its last chunk rests then and keeps it present. -/
structure AgreesReconcile (init : List (EmailChunk γ)) (last : EmailChunk γ) (s : Told γ)
    (k : ProviderKey) : Prop where
  unsentRemoved : (∀ d ∈ init ++ [last], d.sentAt k = []) →
    (s.object.isSome → k ∈ (init ++ [last]).flatMap EmailChunk.present) →
      (∃ d ∈ init, k ∈ d.removed) → s = Told.nothing
  unsentChanged : (∀ d ∈ init ++ [last], d.sentAt k = []) →
    (s.object.isSome → k ∈ (init ++ [last]).flatMap EmailChunk.present) →
      (∀ d ∈ init, k ∉ d.removed) →
        (init.flatMap fun d => d.changesAt k).foldl Told.change s = s
  sentLast : last.sentAt k ≠ [] →
    Told.rowsOf ((init ++ [last]).flatMap fun d => d.sentAt k) = Told.rowsOf (last.sentAt k)
  sentBefore : last.sentAt k = [] → ∀ before c after, init = before ++ c :: after →
    c.sentAt k ≠ [] → (∀ d ∈ after, d.sentAt k = []) →
      Rests (init ++ [last]) c after k ∧
        (k ∈ c.removed ↔ k ∉ (init ++ [last]).flatMap EmailChunk.present)

/-- The condition under which both drivers leave the same under a key. -/
def Agrees (mode : PassMode) (init : List (EmailChunk γ)) (last : EmailChunk γ) (s : Told γ)
    (k : ProviderKey) : Prop :=
  match mode with
  | .additive => AgreesAdditive (init ++ [last]) k
  | .reconcile => AgreesReconcile init last s k

/-! ## At one key -/

section OneKey

variable {k : ProviderKey}

theorem last_sender_unique {before before' after after' : List (EmailChunk γ)} {c c' : EmailChunk γ}
    (e : before ++ c :: after = before' ++ c' :: after') (hc : c.sentAt k ≠ [])
    (hc' : c'.sentAt k ≠ []) (hafter : ∀ d ∈ after, d.sentAt k = [])
    (hafter' : ∀ d ∈ after', d.sentAt k = []) : before' = before ∧ c' = c ∧ after' = after :=
  cut_at_last (P := fun d => d.sentAt k ≠ []) e hc hc' (fun d hd => not_not.mpr (hafter d hd))
    fun d hd => not_not.mpr (hafter' d hd)

theorem row_asSent {sent : List (Message γ)} (h : sent ≠ []) (removed : Bool) :
    (Told.asSent sent removed).row ≠ none := by
  intro hnone
  exact h (List.getLast?_eq_none_iff.mp (Option.map_eq_none_iff.mp hnone))

theorem removed_of_object_asSent {sent : List (Message γ)} (h : sent ≠ []) {removed removed' : Bool}
    (e : (Told.asSent sent removed).object = (Told.asSent sent removed').object) :
    removed = removed' := by
  obtain ⟨m, hm⟩ := Option.ne_none_iff_exists'.mp (mt List.getLast?_eq_none_iff.mp h)
  unfold Told.asSent at e
  rw [hm] at e
  cases removed <;> cases removed' <;> simp at e <;> rfl

/-- Where a message is sent last by `c`, the chunks after it leave what a snapshot or a delta of
everything would, exactly when they rest. -/
theorem after_eq_iff {chunks after : List (EmailChunk γ)} {c : EmailChunk γ} (hc : c.sentAt k ≠ []) (removed : Bool) :
    ({ Told.asSent (c.sentAt k) removed with
        memberships := Told.rowsOf (chunks.flatMap fun d => d.sentAt k) } =
      if ∃ d ∈ after, k ∈ d.removed then Told.nothing
      else (after.flatMap fun d => d.changesAt k).foldl Told.change (Told.asSent (c.sentAt k) (k ∈ c.removed))) ↔
      Rests chunks c after k ∧ (removed = true ↔ k ∈ c.removed) := by
  constructor
  · intro h
    by_cases hremoved : ∃ d ∈ after, k ∈ d.removed
    · rw [if_pos hremoved] at h
      exact absurd (congrArg Told.row h) (row_asSent hc removed)
    · rw [if_neg hremoved] at h
      have hobject := congrArg Told.object h
      rw [Told.object_foldl_change] at hobject
      have hsame := removed_of_object_asSent hc hobject
      subst hsame
      refine ⟨⟨fun d hd hk => hremoved ⟨d, hd, hk⟩, h.symm⟩, by simp⟩
  · intro ⟨hrests, hremoved⟩
    have hnone : ¬∃ d ∈ after, k ∈ d.removed := fun ⟨d, hd, hk⟩ => hrests.kept d hd hk
    have hsame : removed = decide (k ∈ c.removed) := by
      rw [Bool.eq_iff_iff, decide_eq_true_iff]
      exact hremoved
    rw [if_neg hnone, hsame, hrests.settled]

/-- What a key stands at when an additive pass is one delta, and when every chunk is one. -/
theorem addChunk_joined_iff (chunks : List (EmailChunk γ)) (s : Told γ) :
    s.addChunk (EmailChunk.joined chunks) k = chunks.foldl (fun s d => s.addChunk d k) s ↔ AgreesAdditive chunks k := by
  by_cases hsends : ∀ d ∈ chunks, d.sentAt k = []
  · -- nothing is sent whole: the removals and the changes of state are the same either way
    have hjoined : (EmailChunk.joined chunks).sentAt k = [] := by
      rw [EmailChunk.sentAt_joined]
      exact List.flatMap_eq_nil_iff.mpr hsends
    refine iff_of_true ?_ ?_
    · rw [Told.addChunk, if_pos hjoined, Told.foldl_unsent hsends, EmailChunk.changesAt_joined]
      by_cases hremoved : ∃ d ∈ chunks, k ∈ d.removed
      · rw [if_pos hremoved, if_pos, Told.foldl_change_nothing]
        exact List.mem_flatMap.mpr hremoved
      · rw [if_neg hremoved, if_neg]
        intro hmem
        exact hremoved (List.mem_flatMap.mp hmem)
    · intro before c after hsplit hc
      exact absurd (hsends c (by simp [hsplit])) hc
  · obtain ⟨before, c, after, rfl, hc, hafter⟩ := exists_last_sender hsends
    have hjoined : (EmailChunk.joined (before ++ c :: after)).sentAt k ≠ [] := by
      rw [EmailChunk.sentAt_joined]
      intro h
      exact hc (List.flatMap_eq_nil_iff.mp h c (by simp))
    have hdrained : s.addChunk (EmailChunk.joined (before ++ c :: after)) k =
        { Told.asSent (c.sentAt k) (k ∈ (EmailChunk.joined (before ++ c :: after)).removed) with
          memberships := Told.rowsOf ((before ++ c :: after).flatMap fun d => d.sentAt k) } := by
      rw [Told.addChunk, if_neg hjoined, EmailChunk.sentAt_joined, Told.getLast?_asSent (getLast?_sentAt hc hafter)]
    have hremoved : decide (k ∈ (EmailChunk.joined (before ++ c :: after)).removed) = true ↔
        ∃ d ∈ before ++ c :: after, k ∈ d.removed := by
      rw [decide_eq_true_iff]
      exact List.mem_flatMap
    rw [hdrained, Told.foldl_sent hc hafter, after_eq_iff hc, hremoved]
    constructor
    · rintro ⟨hrests, hiff⟩ before' c' after' e hc' hafter'
      obtain ⟨rfl, rfl, rfl⟩ := last_sender_unique e hc hc' hafter hafter'
      refine ⟨hrests, ?_⟩
      rintro ⟨d, hd, hk⟩
      exact hiff.mp ⟨d, List.mem_append_left _ hd, hk⟩
    · intro h
      obtain ⟨hrests, hbefore⟩ := h before c after rfl hc hafter
      refine ⟨hrests, ?_, fun hk => ⟨c, by simp, hk⟩⟩
      rintro ⟨d, hd, hk⟩
      rcases List.mem_append.mp hd with hd | hd
      · exact hbefore ⟨d, hd, hk⟩
      rcases List.mem_cons.mp hd with rfl | hd
      · exact hk
      · exact absurd hk (hrests.kept d hd)

/-- A message a pass sends, but not in its last chunk: the present set keeps it or clears it. -/
theorem close_sentBefore_iff {chunks before after : List (EmailChunk γ)} {c : EmailChunk γ}
    (hc : c.sentAt k ≠ []) (hafter : ∀ d ∈ after, d.sentAt k = []) (present : List ProviderKey)
    (s : Told γ) :
    ({ Told.asSent (c.sentAt k) (k ∉ present) with
        memberships := Told.rowsOf (chunks.flatMap fun d => d.sentAt k) } =
      ((before ++ c :: after).foldl (fun s d => s.addChunk d k) s).close [] present k) ↔
      Rests chunks c after k ∧ (k ∈ c.removed ↔ k ∉ present) := by
  have hiff := @after_eq_iff γ k chunks after c hc (decide (k ∉ present))
  rw [Told.foldl_sent hc hafter, Told.close, if_pos rfl]
  set rest := if ∃ d ∈ after, k ∈ d.removed then Told.nothing
    else (after.flatMap fun d => d.changesAt k).foldl Told.change (Told.asSent (c.sentAt k) (k ∈ c.removed)) with hrest
  by_cases hgone : (rest.object.isSome && decide (k ∉ present)) = true
  · -- the present set clears it, and a snapshot of everything would still have written its row
    rw [if_pos hgone]
    rw [Bool.and_eq_true, decide_eq_true_iff] at hgone
    refine iff_of_false ?_ ?_
    · intro h
      exact row_asSent hc (decide (k ∉ present)) (congrArg Told.row h)
    · intro ⟨hrests, hremoved⟩
      have hnone : ¬∃ d ∈ after, k ∈ d.removed := fun ⟨d, hd, hk⟩ => hrests.kept d hd hk
      rw [hrest, if_neg hnone, Told.object_foldl_change] at hgone
      have hk : k ∈ c.removed := hremoved.mpr hgone.2
      simp [Told.asSent, hk] at hgone
  · rw [if_neg hgone, hiff, decide_eq_true_iff]
    exact and_congr_right fun _ => iff_comm

/-- A message a pass never sends: a snapshot of everything leaves it, unless it is stored and not
present. -/
theorem close_unsent_iff {init : List (EmailChunk γ)} (hinit : ∀ d ∈ init, d.sentAt k = [])
    (present : List ProviderKey) (s : Told γ) :
    s.close [] present k = (init.foldl (fun s d => s.addChunk d k) s).close [] present k ↔
      ((s.object.isSome → k ∈ present) → (∃ d ∈ init, k ∈ d.removed) → s = Told.nothing) ∧
      ((s.object.isSome → k ∈ present) → (∀ d ∈ init, k ∉ d.removed) →
        (init.flatMap fun d => d.changesAt k).foldl Told.change s = s) := by
  have hclear : ∀ t : Told γ, t.close [] present k =
      if t.object.isSome → k ∈ present then t else Told.nothing := by
    intro t
    rw [Told.close, if_pos rfl]
    by_cases h : t.object.isSome → k ∈ present
    · rw [if_pos h, if_neg (by simpa using h)]
    · rw [if_neg h, if_pos (by simpa using h)]
  have hnothing : (Told.nothing : Told γ).close [] present k = Told.nothing := rfl
  rw [Told.foldl_unsent hinit]
  by_cases hremoved : ∃ d ∈ init, k ∈ d.removed
  · have hnot : ¬∀ d ∈ init, k ∉ d.removed := fun h => by
      obtain ⟨d, hd, hk⟩ := hremoved
      exact h d hd hk
    rw [if_pos hremoved, hnothing, hclear]
    by_cases hstays : s.object.isSome → k ∈ present
    · simp [hremoved, hnot]
    · simp [hstays]
  · have hkept : ∀ d ∈ init, k ∉ d.removed := fun d hd hk => hremoved ⟨d, hd, hk⟩
    rw [if_neg hremoved, hclear, hclear, Told.object_foldl_change]
    by_cases hstays : s.object.isSome → k ∈ present
    · simp only [if_pos hstays]
      constructor
      · intro h
        exact ⟨fun _ hr => absurd hr hremoved, fun _ _ => h.symm⟩
      · intro h
        exact (h.2 hstays hkept).symm
    · simp [hstays]

/-- What a key stands at when a reconciling pass is one snapshot, and when its last chunk closes the
deltas before it. -/
theorem close_joined_iff (init : List (EmailChunk γ)) (last : EmailChunk γ) (s : Told γ) :
    s.close ((EmailChunk.joined (init ++ [last])).sentAt k) ((init ++ [last]).flatMap EmailChunk.present) k =
      (init.foldl (fun s d => s.addChunk d k) s).close (last.sentAt k) ((init ++ [last]).flatMap EmailChunk.present) k ↔
      AgreesReconcile init last s k := by
  rw [EmailChunk.sentAt_joined]
  set present := (init ++ [last]).flatMap EmailChunk.present with hpresent
  by_cases hlast : last.sentAt k = []
  · by_cases hinit : ∀ d ∈ init, d.sentAt k = []
    · have hunsent : ∀ d ∈ init ++ [last], d.sentAt k = [] := by
        intro d hd
        rcases List.mem_append.mp hd with hd | hd
        · exact hinit d hd
        · rw [List.mem_singleton.mp hd]
          exact hlast
      rw [List.flatMap_eq_nil_iff.mpr hunsent, hlast, close_unsent_iff hinit]
      constructor
      · intro h
        refine ⟨fun _ => h.1, fun _ => h.2, fun h => absurd hlast h, ?_⟩
        intro _ before c after e hc
        exact absurd (hinit c (by simp [e])) hc
      · intro h
        exact ⟨h.unsentRemoved hunsent, h.unsentChanged hunsent⟩
    · obtain ⟨before, c, after, rfl, hc, hafter⟩ := exists_last_sender hinit
      have hafter' : ∀ d ∈ after ++ [last], d.sentAt k = [] := by
        intro d hd
        rcases List.mem_append.mp hd with hd | hd
        · exact hafter d hd
        · rw [List.mem_singleton.mp hd]
          exact hlast
      have hsent : ((before ++ c :: after ++ [last]).flatMap fun d => d.sentAt k) ≠ [] := by
        intro h
        exact hc (List.flatMap_eq_nil_iff.mp h c (by simp))
      have hends : ((before ++ c :: after ++ [last]).flatMap fun d => d.sentAt k).getLast? = (c.sentAt k).getLast? := by
        rw [List.append_assoc, List.cons_append]
        exact getLast?_sentAt hc hafter'
      rw [hlast, Told.close, if_neg hsent, Told.getLast?_asSent hends, close_sentBefore_iff hc hafter]
      constructor
      · intro h
        refine ⟨?_, ?_, fun h => absurd hlast h, ?_⟩
        · intro hunsent
          exact absurd (hunsent c (by simp)) hc
        · intro hunsent
          exact absurd (hunsent c (by simp)) hc
        · intro _ before' c' after' e hc' hafter'
          obtain ⟨rfl, rfl, rfl⟩ := last_sender_unique e hc hc' hafter hafter'
          exact h
      · intro h
        exact h.sentBefore hlast before c after rfl hc hafter
  · -- the last chunk sends it: what came before only leaves its memberships
    have hsent : ((init ++ [last]).flatMap fun d => d.sentAt k) ≠ [] := by
      intro h
      exact hlast (List.flatMap_eq_nil_iff.mp h last (by simp))
    have hends : ((init ++ [last]).flatMap fun d => d.sentAt k).getLast? =
        (last.sentAt k).getLast? := getLast?_sentAt hlast (by simp)
    rw [Told.close, if_neg hsent, Told.close, if_neg hlast, Told.getLast?_asSent hends]
    constructor
    · intro h
      refine ⟨?_, ?_, fun _ => congrArg Told.memberships h, fun h => absurd h hlast⟩
      · intro hunsent
        exact absurd (hunsent last (by simp)) hlast
      · intro hunsent
        exact absurd (hunsent last (by simp)) hlast
    · intro h
      rw [h.sentLast hlast]
      rfl

end OneKey

/-! ## The two drivers -/

variable [MailContent γ]

/-- The scope after the whole pass is committed at once. -/
def drained (kind : StoreKind) (cell : ScopeCell γ) (chunks : List (EmailChunk γ)) :
    Except DrainError (ScopeCell γ) :=
  (drainEmail chunks).map fun (update, cursor) => commit kind cell update (some cursor)

section Pass

variable {mode : PassMode} {init : List (EmailChunk γ)} {last : EmailChunk γ}

omit [MailContent γ] in
theorem OnePass.cursor_drained (h : OnePass mode init last) :
    ∃ cursor, ((init ++ [last]).filterMap EmailChunk.advanceTo).getLast? = some cursor := by
  obtain ⟨cursor, hcursor⟩ := Option.isSome_iff_exists.mp h.cursor
  refine ⟨cursor, ?_⟩
  rw [List.filterMap_append, List.filterMap_cons_some hcursor]
  exact List.getLast?_concat

omit [MailContent γ] in
theorem OnePass.mode_drained (h : OnePass mode init last) :
    ((init ++ [last]).getLast?.map EmailChunk.mode).getD .additive = mode := by
  rw [List.getLast?_concat]
  exact h.modes last (by simp)

theorem OnePass.drained_eq (h : OnePass mode init last) (kind : StoreKind) (cell : ScopeCell γ) :
    ∃ cell', drained kind cell (init ++ [last]) = .ok cell' ∧ ∀ k, cell'.told k =
      match mode with
      | .additive => (cell.told k).addChunk (EmailChunk.joined (init ++ [last])) k
      | .reconcile => (cell.told k).close ((EmailChunk.joined (init ++ [last])).sentAt k)
          ((init ++ [last]).flatMap EmailChunk.present) k := by
  obtain ⟨cursor, hcursor⟩ := h.cursor_drained
  unfold drained drainEmail
  simp only [hcursor, h.mode_drained]
  cases mode with
  | additive =>
    refine ⟨_, rfl, fun k => ?_⟩
    exact told_commit_delta kind cell (EmailChunk.joined (init ++ [last])) (some cursor) k
  | reconcile =>
    refine ⟨_, rfl, fun k => ?_⟩
    exact told_commit_snapshot kind cell _ _ (some cursor) k

theorem OnePass.streamed_eq (h : OnePass mode init last) (kind : StoreKind) (cell : ScopeCell γ)
    (k : ProviderKey) : (streamed kind .full cell (init ++ [last])).told k =
      match mode with
      | .additive => (init ++ [last]).foldl (fun s c => s.addChunk c k) (cell.told k)
      | .reconcile => (init.foldl (fun s c => s.addChunk c k) (cell.told k)).close (last.sentAt k)
          ((init ++ [last]).flatMap EmailChunk.present) k := by
  have hfull : ∀ chunks : List (EmailChunk γ), chunks.map (EmailChunk.within · .full) = chunks :=
    fun chunks => by simp [EmailChunk.within_full]
  cases mode with
  | additive =>
    have hnot : ∀ c ∈ init ++ [last], c.isReconcileFinal = false := by
      intro c hc
      rw [EmailChunk.isReconcileFinal, h.modes c hc]
      rfl
    rw [told_streamed kind .full cell hnot, hfull]
  | reconcile =>
    have hfinal : last.isReconcileFinal = true := by
      rw [EmailChunk.isReconcileFinal, h.modes last (by simp), h.cursor]
      rfl
    have hnot : ∀ c ∈ init, c.isReconcileFinal = false := by
      intro c hc
      rw [EmailChunk.isReconcileFinal, h.held rfl c hc]
      simp
    have hcovers : init.flatMap EmailChunk.covers = init.flatMap EmailChunk.present := by
      apply List.flatMap_congr
      intro c hc
      rw [EmailChunk.covers, if_pos (h.modes c (by simp [hc]))]
    rw [told_streamed_final kind .full cell hnot hfinal, hfull, hcovers, List.flatMap_append]
    simp

end Pass

namespace Sample

theorem inbox_filed : ["INBOX"] ≠ [] := by decide

/-- An unread message. -/
def letter : Message Unit where
  key := "m1"
  content := ()
  date := none
  threadId := none
  preview := none
  mailboxes := ["INBOX"]
  filed := inbox_filed
  keywords := []
  revisions := .none
  lastModified := none

/-- The message, sent whole by a reconciling pass that is not over. -/
def wholeChunk : EmailChunk Unit := ⟨.reconcile, [letter], [], [], ["m1"], none, none⟩

/-- The message has been read since, and a resync says so without sending it. -/
def readChunk : EmailChunk Unit :=
  ⟨.reconcile, [], [⟨"m1", ⟨["$seen"], none, .none, none⟩⟩], [], ["m1"], none, none⟩

def endOfPass : EmailChunk Unit := ⟨.reconcile, [], [], [], [], none, some "c2"⟩

def holding : ScopeCell Unit :=
  streamed .durable .full .new [⟨.additive, [letter], [], [], [], none, some "c1"⟩]

theorem wholeChunk_onePass : OnePass .reconcile [wholeChunk] endOfPass where
  modes := by decide
  cursor := rfl
  held := by decide

theorem readChunk_onePass : OnePass .reconcile [readChunk] endOfPass where
  modes := by decide
  cursor := rfl
  held := by decide

end Sample

end Mail
end SyncEngine
