import SyncEngine.Mail.Told

/-!
# Draining a stream

The same pass can be committed chunk by chunk, or drained into one update.  A message sent whole is the later word in
its own update, and a snapshot carries no changes of state, so the two agree on a pass exactly when no change of state
or removal after a message was last sent would still move it.
-/

namespace SyncEngine
namespace Mail

variable {γ : Type}

/-! ## One chunk at one key -/

namespace EmailChunk

def sentAt (c : EmailChunk γ) (k : ProviderKey) : List (Message γ) :=
  c.changed.filter fun m => m.key = k

def changesAt (c : EmailChunk γ) (k : ProviderKey) : List MailStateRow :=
  (c.patched.map projectStateChange).filter fun p => p.key = k

/-- All chunks of a pass as one. -/
def joined (chunks : List (EmailChunk γ)) : EmailChunk γ where
  mode := (chunks.getLast?.map mode).getD .additive
  changed := chunks.flatMap changed
  patched := chunks.flatMap patched
  removed := chunks.flatMap removed
  present := chunks.flatMap present
  total := none
  advanceTo := (chunks.filterMap advanceTo).getLast?

variable (chunks : List (EmailChunk γ))

theorem sentAt_joined (k : ProviderKey) : (joined chunks).sentAt k = chunks.flatMap fun c => c.sentAt k :=
  List.filter_flatMap ..

theorem changesAt_joined (k : ProviderKey) : (joined chunks).changesAt k = chunks.flatMap fun c => c.changesAt k := by
  show ((chunks.flatMap patched).map projectStateChange).filter _ = _
  rw [List.map_flatMap, List.filter_flatMap]
  rfl

end EmailChunk

namespace Told

/-- A chunk that adds to what is there: a delta. -/
def addChunk (s : Told γ) (c : EmailChunk γ) (k : ProviderKey) : Told γ :=
  if c.sentAt k = [] then (c.changesAt k).foldl change (if k ∈ c.removed then nothing else s)
  else asSent (c.sentAt k) (k ∈ c.removed)

/-- A snapshot of messages against a present set. -/
def close (s : Told γ) (sent : List (Message γ)) (present : List ProviderKey) (k : ProviderKey) :
    Told γ :=
  if sent = [] then if s.object.isSome && k ∉ present then nothing else s
  else asSent sent (k ∉ present)

variable (s : Told γ) {sent : List (Message γ)}

theorem commit_sent (h : sent ≠ []) (removes : Option γ → Bool) :
    s.commit sent [] removes = asSent sent (removes (sent.getLast?.map Message.content)) := by
  obtain ⟨m, hm⟩ := Option.ne_none_iff_exists'.mp (mt List.getLast?_eq_none_iff.mp h)
  unfold commit asSent
  rw [hm]
  by_cases hr : removes (some m.content) = true
  · simp [hr, h, nothing]
  · simp [hr, h]

theorem commit_unsent (changes : List MailStateRow) (removes : Option γ → Bool) : s.commit [] changes removes =
      changes.foldl change (if removes s.object then nothing else s) := by
  unfold commit
  by_cases hr : removes s.object = true
  · simp [hr, nothing]
  · simp [hr]

theorem change_nothing (c : MailStateRow) : (nothing : Told γ).change c = nothing := rfl

variable (changes : List MailStateRow)

theorem foldl_change_nothing : changes.foldl change (nothing : Told γ) = nothing :=
  List.foldl_fixed' change_nothing changes

theorem object_change (c : MailStateRow) : (s.change c).object = s.object := by
  unfold change
  cases s.row with
  | none => rfl
  | some row => rfl

theorem object_foldl_change (s : Told γ) : (changes.foldl change s).object = s.object :=
  foldl_frame object change object_change changes s

theorem getLast?_asSent {sent' : List (Message γ)} (h : sent'.getLast? = sent.getLast?)
    (removed : Bool) : asSent sent' removed = { asSent sent removed with memberships := rowsOf sent' } := by
  unfold asSent
  rw [h]

variable {k : ProviderKey}

/-- Chunks that send nothing whole under the key: a removal clears it for good, and otherwise the
changes of state follow one another. -/
theorem foldl_unsent {ds : List (EmailChunk γ)} (h : ∀ d ∈ ds, d.sentAt k = []) (s : Told γ) :
    ds.foldl (fun s d => s.addChunk d k) s =
      if ∃ d ∈ ds, k ∈ d.removed then nothing
      else (ds.flatMap fun d => d.changesAt k).foldl change s := by
  induction ds generalizing s with
  | nil => simp
  | cons d ds ih =>
    have hd : s.addChunk d k = (d.changesAt k).foldl change (if k ∈ d.removed then nothing else s) := by
      rw [addChunk, if_pos (h d List.mem_cons_self)]
    rw [List.foldl_cons, ih fun d' hd' => h d' (List.mem_cons_of_mem d hd'), hd]
    by_cases hds : ∃ d' ∈ ds, k ∈ d'.removed
    · rw [if_pos hds, if_pos]
      obtain ⟨d', hd', hk⟩ := hds
      exact ⟨d', List.mem_cons_of_mem d hd', hk⟩
    · rw [if_neg hds]
      by_cases hk : k ∈ d.removed
      · rw [if_pos hk, if_pos ⟨d, List.mem_cons_self, hk⟩, foldl_change_nothing, foldl_change_nothing]
      · rw [if_neg hk, if_neg, List.flatMap_cons, List.foldl_append]
        intro ⟨d', hd', hk'⟩
        rcases List.mem_cons.mp hd' with rfl | hd'
        · exact hk hk'
        · exact hds ⟨d', hd', hk'⟩

theorem foldl_sent {before after : List (EmailChunk γ)} {c : EmailChunk γ}
    (hc : c.sentAt k ≠ []) (hafter : ∀ d ∈ after, d.sentAt k = []) (s : Told γ) :
    (before ++ c :: after).foldl (fun s d => s.addChunk d k) s =
      if ∃ d ∈ after, k ∈ d.removed then nothing
      else (after.flatMap fun d => d.changesAt k).foldl change (asSent (c.sentAt k) (k ∈ c.removed)) := by
  have hadd : ∀ s : Told γ, s.addChunk c k = asSent (c.sentAt k) (k ∈ c.removed) := by
    intro s
    rw [addChunk, if_neg hc]
  rw [List.foldl_append, List.foldl_cons, hadd, foldl_unsent hafter]

end Told

variable {k : ProviderKey}

theorem exists_last_sender {chunks : List (EmailChunk γ)} (h : ¬∀ d ∈ chunks, d.sentAt k = []) :
    ∃ before c after, chunks = before ++ c :: after ∧ c.sentAt k ≠ [] ∧ ∀ d ∈ after, d.sentAt k = [] := by
  induction chunks with
  | nil => simp at h
  | cons d ds ih =>
    by_cases hds : ∀ d' ∈ ds, d'.sentAt k = []
    · refine ⟨[], d, ds, rfl, ?_, hds⟩
      intro hd
      apply h
      intro d' hd'
      rcases List.mem_cons.mp hd' with rfl | hd'
      · exact hd
      · exact hds d' hd'
    · obtain ⟨before, c, after, rfl, hc, hafter⟩ := ih hds
      exact ⟨d :: before, c, after, rfl, hc, hafter⟩

theorem getLast?_sentAt {before after : List (EmailChunk γ)} {c : EmailChunk γ}
    (hc : c.sentAt k ≠ []) (hafter : ∀ d ∈ after, d.sentAt k = []) :
    ((before ++ c :: after).flatMap fun d => d.sentAt k).getLast? = (c.sentAt k).getLast? := by
  have hnil : (after.flatMap fun d => d.sentAt k) = [] := List.flatMap_eq_nil_iff.mpr hafter
  rw [List.flatMap_append, List.flatMap_cons, hnil, List.append_nil, List.getLast?_append]
  obtain ⟨m, hm⟩ := Option.ne_none_iff_exists'.mp (mt List.getLast?_eq_none_iff.mp hc)
  rw [hm]
  rfl

/-! ## One chunk -/

theorem changed_withPatched (patches : List MailStateChange) (update : MailUpdate γ) :
    (SyncUpdate.withPatched patches update).changed = update.changed := by
  cases update <;> rfl

variable (messages : List (Message γ))

theorem keyed_wellKeyed : ∀ o ∈ keyed messages, o.1 = o.2.key := by
  intro o ho
  obtain ⟨m, -, rfl⟩ := List.mem_map.mp ho
  rfl

theorem map_snd_keyed : (keyed messages).map Prod.snd = messages := by
  rw [keyed, List.map_map]
  exact List.map_id messages

theorem map_fst_keyed : (keyed messages).map Prod.fst = messages.map Message.key := by simp [keyed]

theorem changesAt_withPatched (c : EmailChunk γ) (k : ProviderKey) :
    (SyncUpdate.withPatched c.patched (.delta (keyed c.changed) [] c.removed)).changesAt k =
      if c.sentAt k = [] then c.changesAt k else [] := by
  show ((c.patched.filter fun p => p.key ∉ (keyed c.changed).map Prod.fst).map
    projectStateChange).filter (fun p => p.key = k) = _
  unfold EmailChunk.changesAt
  rw [map_fst_keyed, List.filter_map, List.filter_map, List.filter_filter]
  by_cases h : c.sentAt k = []
  · have hnot : ∀ m ∈ c.changed, m.key ≠ k := by
      intro m hm
      simpa using List.filter_eq_nil_iff.mp h m hm
    rw [if_pos h]
    apply congrArg
    apply List.filter_congr
    intro p _
    by_cases hp : p.key = k
    · have : p.key ∉ c.changed.map Message.key := by
        intro hmem
        obtain ⟨m, hm, he⟩ := List.mem_map.mp hmem
        exact hnot m hm (he.trans hp)
      simp [projectStateChange, this]
    · simp [projectStateChange, hp]
  · rw [if_neg h]
    obtain ⟨m, hm⟩ := List.exists_mem_of_ne_nil _ h
    obtain ⟨hm, hk⟩ := List.mem_filter.mp hm
    have hk : m.key = k := by simpa using hk
    rw [List.filter_eq_nil_iff.mpr]
    · rfl
    · intro p _ hp
      simp only [Function.comp_apply, projectStateChange, Bool.and_eq_true, decide_eq_true_eq] at hp
      have hpk : p.key = k := of_decide_eq_true hp.1
      exact hp.2 (List.mem_map.mpr ⟨m, hm, hk.trans hpk.symm⟩)

variable [MailContent γ]

variable (kind : StoreKind)

theorem told_commit_delta (cell : ScopeCell γ) (c : EmailChunk γ) (next : Option SyncState) (k : ProviderKey) :
    (commit kind cell (SyncUpdate.withPatched c.patched (.delta (keyed c.changed) [] c.removed))
      next).told k = (cell.told k).addChunk c k := by
  have hkeyed : (SyncUpdate.withPatched c.patched (.delta (keyed c.changed) [] c.removed)).WellKeyed := by
    unfold SyncUpdate.WellKeyed
    rw [changed_withPatched]
    exact keyed_wellKeyed c.changed
  have hsent : (SyncUpdate.withPatched c.patched (.delta (keyed c.changed) [] c.removed)).sentAt k = c.sentAt k := by
    unfold SyncUpdate.sentAt
    rw [changed_withPatched]
    show ((keyed c.changed).map Prod.snd).filter _ = _
    rw [map_snd_keyed]
    rfl
  rw [told_commit kind cell hkeyed, hsent, changesAt_withPatched]
  unfold Told.addChunk
  by_cases h : c.sentAt k = []
  · rw [if_pos h, if_pos h, h, Told.commit_unsent]
    simp only [SyncUpdate.withPatched, SyncUpdate.removesAt, decide_eq_true_eq]
  · rw [if_neg h, if_neg h, Told.commit_sent _ h]
    rfl

theorem told_commit_snapshot (cell : ScopeCell γ) (messages : List (Message γ))
    (present : List ProviderKey) (next : Option SyncState) (k : ProviderKey) :
    (commit kind cell (.snapshot (keyed messages) present) next).told k =
      (cell.told k).close (messages.filter fun m => m.key = k) present k := by
  have hsent : SyncUpdate.sentAt (.snapshot (keyed messages) present) k = messages.filter fun m => m.key = k := by
    unfold SyncUpdate.sentAt
    show ((keyed messages).map Prod.snd).filter _ = _
    rw [map_snd_keyed]
  have hkeyed : SyncUpdate.WellKeyed (.snapshot (keyed messages) present) := keyed_wellKeyed messages
  have hchanges : SyncUpdate.changesAt (.snapshot (keyed messages) present : MailUpdate γ) k = [] := rfl
  rw [told_commit kind cell hkeyed, hsent, hchanges]
  unfold Told.close
  by_cases h : (messages.filter fun m => m.key = k) = []
  · rw [if_pos h, h]
    exact Told.commit_unsent _ _ _
  · rw [if_neg h]
    have hcommit := Told.commit_sent (cell.told k) h
      (SyncUpdate.removesAt (.snapshot (keyed messages) present : MailUpdate γ) k)
    obtain ⟨m, hm⟩ := Option.ne_none_iff_exists'.mp (mt List.getLast?_eq_none_iff.mp h)
    rw [hm] at hcommit
    simpa [SyncUpdate.removesAt] using hcommit

end Mail
end SyncEngine
