import SyncEngine.Content.Blobs

/-!
# A cached source reads back

A get never returns other bytes than the last put of its key wrote.  That a put reads back takes more: a put trusts
a file it finds under the hash, and a sweep that has read the hashes before the row was written removes the file.
Where neither happens, the row and the file stay until the row goes or the file is damaged.
-/

namespace SyncEngine
namespace Content

open Keyed

/-! ## What the steps change -/

section Steps

variable {digest : RawMime → Hash} {d d' : Disk} {t t' : Task} {m : Nat} {held : Held} {bytes : RawMime}

theorem Task.files_step (h : t.step digest d m = some (d', t')) : d'.files = d.files ∨
    (∃ target bytes, t = .staging target bytes ∧ d'.files = d.files.put (blobPath digest target bytes) ⟨bytes, m⟩) ∨
    (∃ candidate rest live report, t = .removing (candidate :: rest) live report ∧
      candidate.path.2 ∉ live ∧ d'.files = d.files.filterRows fun p _ => decide (p ≠ candidate.path)) := by
  revert h
  fun_cases Task.step digest d m t with
  | case3 target bytes =>
    intro h
    cases h
    exact .inr (.inl ⟨target, bytes, rfl, rfl⟩)
  | case4 target bytes =>
    intro h
    cases h
    cases target with
    | source held => exact .inl rfl
    | photo ref => exact .inl rfl
  | case20 candidate rest live report hlive =>
    intro h
    cases h
    exact .inr (.inr ⟨candidate, rest, live, report, rfl, hlive, rfl⟩)
  | case22 | case23 | case24 | case25 | case26 => exact fun h => nomatch h
  | _ =>
    intro h
    cases h
    exact .inl rfl

/-- The hash a key's row names changes where a put writes the row and where the row is dropped for its size. -/
theorem Task.selectHash_step (h : t.step digest d m = some (d', t')) (held : Held) :
    d'.selectHash held = d.selectHash held ∨
    (∃ bytes, t = .recording (.source held) bytes ∧ d'.selectHash held = some (digest bytes)) ∨
    (∃ account octets row, t = .dropping account octets ∧ d.messageSource.get? held = some row ∧
      Disk.over account octets held row = true ∧ d'.selectHash held = none) := by
  revert h
  fun_cases Task.step digest d m t with
  | case4 target bytes =>
    intro h
    cases h
    cases target with
    | photo ref => exact .inl rfl
    | source other =>
      by_cases hsame : held = other
      · subst hsame
        refine .inr (.inl ⟨bytes, rfl, ?_⟩)
        show ((d.messageSource.put held _).get? held).map SourceRow.contentHash = _
        rw [get?_put, if_pos rfl]
        rfl
      · refine .inl ?_
        show ((d.messageSource.put other _).get? held).map SourceRow.contentHash = _
        rw [get?_put, if_neg hsame]
        rfl
  | case13 account octets key size rest =>
    intro h
    cases h
    refine .inl ?_
    show ((d.messageSource.modify (account, key) _).get? held).map SourceRow.contentHash = _
    rw [get?_modify, Disk.selectHash]
    cases d.messageSource.get? held with
    | none => simp
    | some row =>
      by_cases hsame : held = (account, key)
      · simp [hsame]
      · simp [hsame]
  | case14 account octets =>
    intro h
    cases h
    have hget : (d.deleteSourcesOver account octets).selectHash held =
        ((d.messageSource.get? held).filter fun row => !Disk.over account octets held row).map SourceRow.contentHash := by
      show ((d.messageSource.filterRows _).get? held).map SourceRow.contentHash = _
      rw [get?_filterRows]
    cases hrow : d.messageSource.get? held with
    | none =>
      refine .inl ?_
      rw [hget, Disk.selectHash, hrow]
      rfl
    | some row =>
      by_cases hover : Disk.over account octets held row = true
      · refine .inr (.inr ⟨account, octets, row, rfl, rfl, hover, ?_⟩)
        rw [hget, hrow]
        simp [Option.filter, hover]
      · refine .inl ?_
        rw [hget, Disk.selectHash, hrow]
        simp [Option.filter, hover]
  | case22 | case23 | case24 | case25 | case26 => exact fun h => nomatch h
  | _ =>
    intro h
    cases h
    exact .inl rfl

end Steps

theorem Area.step_cases {digest : RawMime → Hash} {s s' : Area} {e : FileEvent} (h : s.step digest e = some s') :
    (∃ op, e = .begin op ∧ s' = { s with tasks := s.tasks ++ [op.task] }) ∨
    (∃ i m t d' t', e = .act i m ∧ s.tasks[i]? = some t ∧ t.step digest s.disk m = some (d', t') ∧
      s' = ⟨d', s.tasks.set i t', Area.putBy s.lastPut t⟩) ∨
    (∃ i, e = .fail i ∧ s' = { s with tasks := s.tasks.set i .failed }) ∨
    (∃ helds, e = .removeMessages helds ∧ s' = { s with
      disk := { s.disk with messageSource := s.disk.messageSource.filterRows fun k _ => decide (k ∉ helds) } }) ∨
    (∃ refs, e = .removePhotos refs ∧ s' = { s with
      disk := { s.disk with contactPhoto := s.disk.contactPhoto.filterRows fun k _ => decide (k ∉ refs) } }) ∨
    (∃ path file, e = .damage path file ∧ s' = { s with disk := Area.damaged s.disk path file }) := by
  cases e with
  | begin op => exact .inl ⟨op, rfl, (Option.some.inj h).symm⟩
  | act i m =>
    obtain ⟨t, ht, hact⟩ := Option.bind_eq_some_iff.mp h
    obtain ⟨⟨d', t'⟩, hstep, rfl⟩ := Option.map_eq_some_iff.mp hact
    exact .inr (.inl ⟨i, m, t, d', t', rfl, ht, hstep, rfl⟩)
  | fail i =>
    obtain ⟨t, -, hfail⟩ := Option.bind_eq_some_iff.mp h
    by_cases hreturned : t.returned = true
    · rw [if_pos hreturned] at hfail
      cases hfail
    · rw [if_neg hreturned, Option.some.injEq] at hfail
      exact .inr (.inr (.inl ⟨i, rfl, hfail.symm⟩))
  | removeMessages helds => exact .inr (.inr (.inr (.inl ⟨helds, rfl, (Option.some.inj h).symm⟩)))
  | removePhotos refs => exact .inr (.inr (.inr (.inr (.inl ⟨refs, rfl, (Option.some.inj h).symm⟩))))
  | damage path file =>
    exact .inr (.inr (.inr (.inr (.inr ⟨path, file, rfl, (Option.some.inj h).symm⟩))))

/-! ## Never other bytes -/

def Area.Named (digest : RawMime → Hash) (s : Area) : Prop :=
  ∀ held hash, s.disk.selectHash held = some hash →
    ∃ bytes, s.lastPut.get? held = some bytes ∧ digest bytes = hash

section Named

variable {digest : RawMime → Hash} {s s' : Area} {e : FileEvent}

variable {d : Disk} {held : Held}

theorem Area.selectHash_removed {helds : List Held} :
    ({ d with messageSource := d.messageSource.filterRows fun k _ => decide (k ∉ helds) } : Disk).selectHash held =
      if held ∈ helds then none else d.selectHash held := by
  show ((d.messageSource.filterRows _).get? held).map SourceRow.contentHash = _
  rw [get?_filterRows, Disk.selectHash]
  by_cases hin : held ∈ helds
  · cases d.messageSource.get? held <;> simp [hin, Option.filter]
  · cases d.messageSource.get? held <;> simp [hin, Option.filter]

theorem Area.selectHash_damaged (d : Disk) (path : Path) (file : Option BlobFile) (held : Held) :
    (Area.damaged d path file).selectHash held = d.selectHash held := by
  cases file with
  | none => rfl
  | some file => rfl

variable {t : Task}

theorem Area.putBy_of_ne {lastPut : Keyed Held RawMime}
    (h : ∀ bytes, t ≠ .recording (.source held) bytes) : (putBy lastPut t).get? held = lastPut.get? held := by
  unfold putBy
  split
  · rename_i other bytes
    have hne : held ≠ other := fun heq => h bytes (by rw [heq])
    rw [get?_put, if_neg hne]
  · rfl

theorem Area.Named.step (hn : s.Named digest) (h : s.step digest e = some s') : s'.Named digest := by
  intro held hash hselect
  rcases Area.step_cases h with ⟨op, -, rfl⟩ | ⟨i, m, t, d', t', -, ht, hstep, rfl⟩ | ⟨i, -, rfl⟩ |
    ⟨helds, -, rfl⟩ | ⟨refs, -, rfl⟩ | ⟨path, file, -, rfl⟩
  · exact hn held hash hselect
  · have hselect' : d'.selectHash held = some hash := hselect
    show ∃ bytes, (Area.putBy s.lastPut t).get? held = some bytes ∧ digest bytes = hash
    by_cases hrecord : ∃ bytes, t = .recording (.source held) bytes
    · obtain ⟨bytes, rfl⟩ := hrecord
      refine ⟨bytes, ?_, ?_⟩
      · show (s.lastPut.put held bytes).get? held = some bytes
        rw [get?_put, if_pos rfl]
      · cases hstep
        have hput : ((s.disk.messageSource.put held ⟨digest bytes, some (octetCount bytes.length)⟩).get?
            held).map SourceRow.contentHash = some hash := hselect'
        rw [get?_put, if_pos rfl] at hput
        exact Option.some.inj hput
    · have hne : ∀ bytes, t ≠ .recording (.source held) bytes := fun bytes hb => hrecord ⟨bytes, hb⟩
      rw [Area.putBy_of_ne hne]
      rcases Task.selectHash_step hstep held with hsame | ⟨b, hb, -⟩ | ⟨account, octets, row, -, -, -, hnone⟩
      · rw [hsame] at hselect'
        exact hn held hash hselect'
      · exact absurd hb (hne b)
      · rw [hnone] at hselect'
        cases hselect'
  · exact hn held hash hselect
  · rw [Area.selectHash_removed] at hselect
    by_cases hin : held ∈ helds
    · rw [if_pos hin] at hselect
      cases hselect
    · rw [if_neg hin] at hselect
      exact hn held hash hselect
  · exact hn held hash hselect
  · rw [Area.selectHash_damaged] at hselect
    exact hn held hash hselect

/-- The task is a get that has found this hash in the row, if any, or has returned what has it. -/
def Task.Selected (digest : RawMime → Hash) (held : Held) (selected : Option Hash) : Task → Prop
  | .reading other hash => other = held ∧ selected = some hash
  | .got other found => other = held ∧ ∀ bytes, found = some bytes → selected = some (digest bytes)
  | .failed => True
  | _ => False

theorem Disk.digest_of_readBlob {path : Path} {bytes : RawMime}
    (h : d.readBlob digest path = some bytes) : digest bytes = path.2 := by
  obtain ⟨file, -, hfile⟩ := Option.bind_eq_some_iff.mp h
  by_cases hhash : digest file.bytes = path.2
  · rw [if_pos hhash, Option.some.injEq] at hfile
    rw [← hfile]
    exact hhash
  · rw [if_neg hhash] at hfile
    cases hfile

variable {t' : Task} {d' : Disk} {m : Nat}

theorem Task.selected_of_step
    (h : (Task.selecting held).step digest d m = some (d', t')) : t'.Selected digest held (d.selectHash held) := by
  dsimp only [Task.step] at h
  cases hselect : d.selectHash held with
  | none =>
    rw [hselect] at h
    cases h
    exact ⟨rfl, fun bytes hbytes => nomatch hbytes⟩
  | some hash =>
    rw [hselect] at h
    cases h
    exact ⟨rfl, rfl⟩

variable {selected : Option Hash}

theorem Task.Selected.step (hs : t.Selected digest held selected) (h : t.step digest d m = some (d', t')) :
    t'.Selected digest held selected := by
  cases t with
  | reading other hash =>
    obtain ⟨rfl, rfl⟩ := hs
    cases h
    refine ⟨rfl, fun bytes hread => ?_⟩
    rw [Disk.digest_of_readBlob hread]
  | got other found => cases h
  | failed => cases h
  | _ => exact hs.elim

theorem Area.Selected.step {i : Nat}
    (hs : ∃ t, s.tasks[i]? = some t ∧ t.Selected digest held selected) (h : s.step digest e = some s') :
    ∃ t, s'.tasks[i]? = some t ∧ t.Selected digest held selected := by
  obtain ⟨t, ht, hsel⟩ := hs
  have hlt : i < s.tasks.length := (List.getElem?_eq_some_iff.mp ht).1
  rcases Area.step_cases h with ⟨op, -, rfl⟩ | ⟨j, m, u, d', u', -, hu, hstep, rfl⟩ | ⟨j, -, rfl⟩ |
    ⟨helds, -, rfl⟩ | ⟨refs, -, rfl⟩ | ⟨path, file, -, rfl⟩
  · refine ⟨t, ?_, hsel⟩
    show (s.tasks ++ [op.task])[i]? = some t
    rw [List.getElem?_append_left hlt]
    exact ht
  · by_cases hij : j = i
    · subst hij
      rw [ht, Option.some.injEq] at hu
      subst hu
      exact ⟨u', by simp [hlt], hsel.step hstep⟩
    · exact ⟨t, by simp [hij, ht], hsel⟩
  · by_cases hij : j = i
    · subst hij
      exact ⟨.failed, by simp [hlt], trivial⟩
    · exact ⟨t, by simp [hij, ht], hsel⟩
  · exact ⟨t, ht, hsel⟩
  · exact ⟨t, ht, hsel⟩
  · exact ⟨t, ht, hsel⟩

end Named

/-! ## Runs in which a put reads back -/

section Careful

variable (digest : RawMime → Hash)

def Disk.intact (d : Disk) (bytes : RawMime) : Bool :=
  decide ((d.files.get? (.sources, digest bytes)).map BlobFile.bytes = some bytes)

/-- Some row of `message_source` names the blob. -/
def Disk.named (d : Disk) (path : Path) : Bool :=
  d.messageSource.rows.any fun r => decide ((Namespace.sources, r.2.contentHash) = path)

/-- The task is a put that has written or found this blob and has not written its row. -/
def Task.reliesOn (path : Path) : Task → Bool
  | .recording (.source _) bytes => decide ((Namespace.sources, digest bytes) = path)
  | _ => false

def Area.relied (s : Area) (path : Path) : Bool := s.tasks.any fun t => t.reliesOn digest path

/-- A put finds no file under its hash or an intact one, and a sweep removes no file that a row names or that a
put in progress relies on. -/
def Area.carefulTask (s : Area) : Task → Bool
  | .checking (.source _) bytes =>
    (s.disk.files.get? (.sources, digest bytes)).isNone || s.disk.intact digest bytes
  | .removing (candidate :: _) live _ =>
    decide (candidate.path.2 ∈ live) || !(s.disk.named candidate.path || s.relied digest candidate.path)
  | _ => true

/-- Nor is a file damaged between the two writes of a put. -/
def Area.careful (s : Area) : FileEvent → Bool
  | .act i _ => (s.tasks[i]?).all (s.carefulTask digest)
  | .damage path _ => !s.relied digest path
  | _ => true

def Task.replaces (d : Disk) (held : Held) : Task → Bool
  | .recording (.source other) _ => decide (other = held)
  | .dropping account octets => (d.messageSource.get? held).any (Disk.over account octets held)
  | _ => false

theorem held_lawful : LawfulBEq Held := inferInstance

/-- The event replaces or removes the key's row, or damages the file of these bytes. -/
def Area.touches (s : Area) (held : Held) (bytes : RawMime) : FileEvent → Bool
  | .act i _ => (s.tasks[i]?).any (Task.replaces s.disk held)
  | .removeMessages helds =>
    haveI := held_lawful
    decide (held ∈ helds)
  | .damage path _ => decide (path = (.sources, digest bytes))
  | _ => false

def Area.Steps (s : Area) (e : FileEvent) (s' : Area) : Prop := s.step digest e = some s'

end Careful

section ReadsBack

variable {digest : RawMime → Hash} {s s' : Area} {e : FileEvent} {bytes : RawMime} {held : Held}

variable {d : Disk}

theorem Disk.intact_put (hinj : Function.Injective digest) (h : d.intact digest bytes = true)
    (target : Target) (other : RawMime) (m : Nat) :
    (d.persist (blobPath digest target other) other m).intact digest bytes = true := by
  unfold Disk.intact at h ⊢
  rw [decide_eq_true_eq] at h ⊢
  show ((d.files.put (blobPath digest target other) ⟨other, m⟩).get? _).map BlobFile.bytes = _
  rw [get?_put]
  by_cases hpath : (Namespace.sources, digest bytes) = blobPath digest target other
  · -- the file written in its place has the same hash, so the same bytes
    rw [if_pos hpath]
    have hbytes : digest bytes = digest other := congrArg Prod.snd hpath
    rw [hinj hbytes]
    rfl
  · rw [if_neg hpath]
    exact h

variable {path : Path}

theorem Disk.intact_unlink (h : d.intact digest bytes = true)
    (hpath : path ≠ (.sources, digest bytes)) : (d.unlink path).intact digest bytes = true := by
  unfold Disk.intact at h ⊢
  rw [decide_eq_true_eq] at h ⊢
  show ((d.files.filterRows fun p _ => decide (p ≠ path)).get? _).map BlobFile.bytes = _
  rw [get?_filterRows]
  have hkeep : decide ((Namespace.sources, digest bytes) ≠ path) = true := decide_eq_true (Ne.symm hpath)
  cases hfile : d.files.get? (.sources, digest bytes) with
  | none =>
    rw [hfile] at h
    cases h
  | some file =>
    rw [hfile] at h
    simp only [Option.filter, hkeep, if_true]
    exact h

variable {d' : Disk}

theorem Disk.intact_congr (h : d'.files = d.files) : d'.intact digest bytes = d.intact digest bytes := by
  unfold Disk.intact
  rw [h]

theorem Area.relied_iff : s.relied digest path = true ↔
    ∃ held bytes, .recording (.source held) bytes ∈ s.tasks ∧ (Namespace.sources, digest bytes) = path := by
  unfold Area.relied
  rw [List.any_eq_true]
  constructor
  · intro ⟨t, ht, hrely⟩
    unfold Task.reliesOn at hrely
    split at hrely
    · rename_i held bytes
      exact ⟨held, bytes, ht, of_decide_eq_true hrely⟩
    · cases hrely
  · intro ⟨held, bytes, ht, hpath⟩
    exact ⟨_, ht, decide_eq_true hpath⟩

theorem Disk.named_of_selectHash {hash : Hash} (h : d.selectHash held = some hash) : d.named (.sources, hash) = true := by
  obtain ⟨row, hrow, rfl⟩ := Option.map_eq_some_iff.mp h
  exact List.any_eq_true.mpr ⟨(held, row), d.messageSource.get?_eq_some_iff.mp hrow, decide_eq_true rfl⟩

variable {i m : Nat} {t : Task}

theorem Area.carefulTask_of_act (ht : s.tasks[i]? = some t)
    (h : s.careful digest (.act i m) = true) : s.carefulTask digest t = true := by
  have hall : (s.tasks[i]?).all (s.carefulTask digest) = true := h
  rw [ht] at hall
  exact hall

theorem Area.intact_step (hinj : Function.Injective digest) (hintact : s.disk.intact digest bytes = true)
    (hused : s.disk.named (.sources, digest bytes) = true ∨ s.relied digest (.sources, digest bytes) = true)
    (hcareful : s.careful digest e = true)
    (hdamage : ∀ file, e ≠ .damage (.sources, digest bytes) file) (h : s.step digest e = some s') :
    s'.disk.intact digest bytes = true := by
  rcases Area.step_cases h with ⟨op, -, rfl⟩ | ⟨i, m, t, d', t', rfl, ht, hstep, rfl⟩ | ⟨i, -, rfl⟩ |
    ⟨helds, -, rfl⟩ | ⟨refs, -, rfl⟩ | ⟨path, file, rfl, rfl⟩
  · exact hintact
  · show d'.intact digest bytes = true
    rcases Task.files_step hstep with hfiles | ⟨target, other, -, hfiles⟩ |
      ⟨candidate, rest, live, report, rfl, hlive, hfiles⟩
    · rw [Disk.intact_congr hfiles]
      exact hintact
    · have hsame : d'.files = (s.disk.persist (blobPath digest target other) other m).files := hfiles
      rw [Disk.intact_congr hsame]
      exact Disk.intact_put hinj hintact target other m
    · have hsame : d'.files = (s.disk.unlink candidate.path).files := hfiles
      rw [Disk.intact_congr hsame]
      refine Disk.intact_unlink hintact fun hpath => ?_
      have hspared : (decide (candidate.path.2 ∈ live) ||
          !(s.disk.named candidate.path || s.relied digest candidate.path)) = true :=
        Area.carefulTask_of_act ht hcareful
      rw [hpath] at hspared hlive
      rcases hused with hnamed | hrelied
      · simp [hlive, hnamed] at hspared
      · simp [hlive, hrelied] at hspared
  · exact hintact
  · exact hintact
  · exact hintact
  · have hpath : path ≠ (.sources, digest bytes) := fun heq => hdamage file (by rw [heq])
    cases file with
    | none => exact Disk.intact_unlink hintact hpath
    | some file =>
      show Disk.intact digest { s.disk with files := s.disk.files.put path file } bytes = true
      unfold Disk.intact at hintact ⊢
      show decide (((s.disk.files.put path file).get? _).map BlobFile.bytes = _) = true
      rw [get?_put, if_neg (Ne.symm hpath)]
      exact hintact

/-- A put that has its file has it intact. -/
def Area.Staged (digest : RawMime → Hash) (s : Area) : Prop :=
  ∀ held bytes, .recording (.source held) bytes ∈ s.tasks → s.disk.intact digest bytes = true

variable {t' : Task}

theorem Task.recording_of_step (h : t.step digest d m = some (d', t')) (ht' : t' = .recording (.source held) bytes) :
    (t = .checking (.source held) bytes ∧ (d.files.get? (.sources, digest bytes)).isSome = true ∧ d' = d) ∨
      (t = .staging (.source held) bytes ∧ d' = d.persist (.sources, digest bytes) bytes m) := by
  revert h
  fun_cases Task.step digest d m t with
  | case1 target other hsome =>
    intro h
    cases h
    cases ht'
    exact .inl ⟨rfl, hsome, rfl⟩
  | case3 target other =>
    intro h
    cases h
    cases ht'
    exact .inr ⟨rfl, rfl⟩
  | case22 | case23 | case24 | case25 | case26 => exact fun h => nomatch h
  | _ =>
    intro h
    cases h
    cases ht'

theorem Area.Staged.step (hinj : Function.Injective digest) (hs : s.Staged digest)
    (hcareful : s.careful digest e = true) (h : s.step digest e = some s') : s'.Staged digest := by
  intro held bytes hmem
  -- a put that was recording before keeps its file
  have hold : .recording (.source held) bytes ∈ s.tasks → s'.disk.intact digest bytes = true := by
    intro hin
    have hrelied : s.relied digest (.sources, digest bytes) = true := Area.relied_iff.mpr ⟨held, bytes, hin, rfl⟩
    refine Area.intact_step hinj (hs held bytes hin) (.inr hrelied) hcareful ?_ h
    intro file he
    subst he
    have hspared : (!s.relied digest (.sources, digest bytes)) = true := hcareful
    rw [hrelied] at hspared
    exact absurd hspared (by decide)
  rcases Area.step_cases h with ⟨op, -, rfl⟩ | ⟨i, m, t, d', t', rfl, ht, hstep, rfl⟩ | ⟨i, -, rfl⟩ |
    ⟨helds, -, rfl⟩ | ⟨refs, -, rfl⟩ | ⟨path, file, rfl, rfl⟩
  · rcases List.mem_append.mp hmem with hin | hnew
    · exact hold hin
    · cases op <;> simp [Op.task] at hnew
  · rcases List.mem_or_eq_of_mem_set hmem with hin | hnew
    · exact hold hin
    · rcases Task.recording_of_step hstep hnew.symm with ⟨rfl, hsome, rfl⟩ | ⟨rfl, rfl⟩
      · have hfound : ((s.disk.files.get? (.sources, digest bytes)).isNone ||
            s.disk.intact digest bytes) = true :=
          Area.carefulTask_of_act ht hcareful
        rw [Option.isSome_iff_exists] at hsome
        obtain ⟨file, hfile⟩ := hsome
        rw [hfile] at hfound
        exact hfound
      · show decide (((s.disk.files.put (.sources, digest bytes) ⟨bytes, m⟩).get? _).map BlobFile.bytes =
          some bytes) = true
        rw [get?_put, if_pos rfl]
        exact decide_eq_true rfl
  · rcases List.mem_or_eq_of_mem_set hmem with hin | hnew
    · exact hold hin
    · cases hnew
  · exact hold hmem
  · exact hold hmem
  · exact hold hmem

theorem Area.task_of_step {j : Nat} {u : Task} (h : s.step digest e = some s') (hu : s'.tasks[j]? = some u) :
    s.tasks[j]? = some u ∨ (∃ op : Op, u = op.task) ∨ u = .failed ∨
      ∃ t m d', s.tasks[j]? = some t ∧ t.step digest s.disk m = some (d', u) := by
  rcases Area.step_cases h with ⟨op, -, rfl⟩ | ⟨i, m, t, d', t', -, ht, hstep, rfl⟩ | ⟨i, -, rfl⟩ |
    ⟨helds, -, rfl⟩ | ⟨refs, -, rfl⟩ | ⟨path, file, -, rfl⟩
  · by_cases hlt : j < s.tasks.length
    · rw [List.getElem?_append_left hlt] at hu
      exact .inl hu
    · have hlast : [op.task][j - s.tasks.length]? = some u := by
        rwa [List.getElem?_append_right (Nat.le_of_not_lt hlt)] at hu
      exact .inr (.inl ⟨op, List.mem_singleton.mp (List.mem_of_getElem? hlast)⟩)
  · by_cases hij : i = j
    · subst hij
      have hlt : i < s.tasks.length := (List.getElem?_eq_some_iff.mp ht).1
      have hnew : some t' = some u := by rwa [List.getElem?_set_self hlt] at hu
      cases hnew
      exact .inr (.inr (.inr ⟨t, m, d', ht, hstep⟩))
    · exact .inl (by rwa [List.getElem?_set_ne hij] at hu)
  · by_cases hij : i = j
    · subst hij
      by_cases hlt : i < s.tasks.length
      · have hnew : some Task.failed = some u := by rwa [List.getElem?_set_self hlt] at hu
        exact .inr (.inr (.inl (Option.some.inj hnew).symm))
      · rw [List.set_eq_of_length_le (Nat.le_of_not_lt hlt)] at hu
        exact .inl hu
    · exact .inl (by rwa [List.getElem?_set_ne hij] at hu)
  · exact .inl hu
  · exact .inl hu
  · exact .inl hu

/-- A get of the key goes the way of these bytes. -/
def Task.Answers (digest : RawMime → Hash) (held : Held) (bytes : RawMime) : Task → Prop
  | .reading other hash => other = held → hash = digest bytes
  | .got other found => other = held → found = some bytes
  | _ => True

/-- The key's row names these bytes, their file has them, and the gets from the `n`th task on find them. -/
structure Area.Serves (digest : RawMime → Hash) (held : Held) (bytes : RawMime) (n : Nat) (s : Area) : Prop where
  row : s.disk.selectHash held = some (digest bytes)
  file : s.disk.intact digest bytes = true
  begun : n ≤ s.tasks.length
  gets : ∀ j t, n ≤ j → s.tasks[j]? = some t → t.Answers digest held bytes

theorem Disk.readBlob_of_intact (h : d.intact digest bytes = true) :
    d.readBlob digest (.sources, digest bytes) = some bytes := by
  unfold Disk.intact at h
  rw [decide_eq_true_eq] at h
  obtain ⟨file, hfile, rfl⟩ := Option.map_eq_some_iff.mp h
  unfold Disk.readBlob
  rw [hfile]
  simp

variable {n : Nat}

theorem Area.Serves.answers_step (hv : s.Serves digest held bytes n)
    (ha : t.Answers digest held bytes) (h : t.step digest s.disk m = some (d', t')) :
    t'.Answers digest held bytes := by
  revert h
  fun_cases Task.step digest s.disk m t with
  | case5 other hnone =>
    intro h
    cases h
    intro heq
    rw [heq, hv.row] at hnone
    cases hnone
  | case6 other hash hsome =>
    intro h
    cases h
    intro heq
    rw [heq, hv.row, Option.some.injEq] at hsome
    exact hsome.symm
  | case7 other hash =>
    intro h
    cases h
    intro heq
    rw [ha heq]
    exact Disk.readBlob_of_intact hv.file
  | case22 | case23 | case24 | case25 | case26 => exact fun h => nomatch h
  | _ =>
    intro h
    cases h
    exact trivial

theorem Area.row_step (hrow : s.disk.selectHash held = some (digest bytes))
    (htouch : s.touches digest held bytes e = false) (h : s.step digest e = some s') :
    s'.disk.selectHash held = some (digest bytes) := by
  rcases Area.step_cases h with ⟨op, -, rfl⟩ | ⟨i, m, t, d', t', rfl, ht, hstep, rfl⟩ | ⟨i, -, rfl⟩ |
    ⟨helds, rfl, rfl⟩ | ⟨refs, -, rfl⟩ | ⟨path, file, -, rfl⟩
  · exact hrow
  · have hspared : t.replaces s.disk held = false := by
      have hany : (s.tasks[i]?).any (Task.replaces s.disk held) = false := htouch
      rw [ht] at hany
      exact hany
    rcases Task.selectHash_step hstep held with hsame | ⟨other, rfl, -⟩ |
      ⟨account, octets, row, rfl, hget, hover, -⟩
    · rw [← hrow]
      exact hsame
    · exact absurd hspared (by simp [Task.replaces])
    · have hany : (s.disk.messageSource.get? held).any (Disk.over account octets held) = false := hspared
      rw [hget, Option.any_some, hover] at hany
      cases hany
  · exact hrow
  · have hout : held ∉ helds := of_decide_eq_false htouch
    rw [Area.selectHash_removed, if_neg hout]
    exact hrow
  · exact hrow
  · rw [Area.selectHash_damaged]
    exact hrow

theorem Area.Serves.step (hinj : Function.Injective digest) (hv : s.Serves digest held bytes n)
    (hcareful : s.careful digest e = true) (htouch : s.touches digest held bytes e = false)
    (h : s.step digest e = some s') : s'.Serves digest held bytes n where
  row := Area.row_step hv.row htouch h
  file := by
    refine Area.intact_step hinj hv.file (.inl (Disk.named_of_selectHash hv.row)) hcareful ?_ h
    intro file he
    rw [he] at htouch
    exact absurd htouch (by simp [Area.touches])
  begun := by
    have hbegun := hv.begun
    rcases Area.step_cases h with ⟨op, -, rfl⟩ | ⟨i, m, t, d', t', rfl, ht, hstep, rfl⟩ | ⟨i, -, rfl⟩ |
      ⟨helds, rfl, rfl⟩ | ⟨refs, -, rfl⟩ | ⟨path, file, -, rfl⟩
    · simp only [List.length_append]
      omega
    · simpa using hbegun
    · simpa using hbegun
    · exact hbegun
    · exact hbegun
    · exact hbegun
  gets := by
    intro j u hj hu
    rcases Area.task_of_step h hu with hsame | ⟨op, rfl⟩ | rfl | ⟨t, m, d', ht, hstep⟩
    · exact hv.gets j u hj hsame
    · cases op <;> exact trivial
    · exact trivial
    · exact hv.answers_step (hv.gets j t hj ht) hstep

theorem Area.serves_recorded (hs : s.Staged digest)
    (ht : s.tasks[i]? = some (.recording (.source held) bytes)) (h : s.step digest (.act i m) = some s') :
    s'.Serves digest held bytes s'.tasks.length := by
  have hintact := hs held bytes (List.mem_of_getElem? ht)
  rcases Area.step_cases h with ⟨op, he, -⟩ | ⟨j, m', t, d', t', he, ht', hstep, rfl⟩ | ⟨j, he, -⟩ |
    ⟨helds, he, -⟩ | ⟨refs, he, -⟩ | ⟨path, file, he, -⟩
  · cases he
  · cases he
    rw [ht, Option.some.injEq] at ht'
    subst ht'
    cases hstep
    refine ⟨?_, hintact, Nat.le_refl _, ?_⟩
    · show ((s.disk.messageSource.put held _).get? held).map SourceRow.contentHash = _
      rw [get?_put, if_pos rfl]
      rfl
    · intro j u hj hu
      have hlt := (List.getElem?_eq_some_iff.mp hu).1
      omega
  · cases he
  · cases he
  · cases he
  · cases he

end ReadsBack

/-- A get returns no other bytes than those last put under its key when it read the row.  In a run of careful
events a put that has returned reads back until its row is replaced or removed or its file is damaged, whatever
else runs beside it. -/
theorem source_reads_back {digest : RawMime → Hash} (hinj : Function.Injective digest) {s₀ : Area}
    (hnone : s₀.tasks = []) (hnamed : s₀.Named digest) :
    (∀ es s i held m s₁ es' s₂ bytes, Run (Area.Steps digest) s₀ es s →
      s.tasks[i]? = some (.selecting held) → s.Steps digest (.act i m) s₁ →
      Run (Area.Steps digest) s₁ es' s₂ → s₂.tasks[i]? = some (.got held (some bytes)) →
      s.lastPut.get? held = some bytes) ∧
    (∀ es s i held bytes m s₁ es' s₂, Run (fun s e s' => s.Steps digest e s' ∧ s.careful digest e = true) s₀ es s →
      s.tasks[i]? = some (.recording (.source held) bytes) → s.Steps digest (.act i m) s₁ →
      Run (fun s e s' => (s.Steps digest e s' ∧ s.careful digest e = true) ∧
        s.touches digest held bytes e = false) s₁ es' s₂ →
      s₂.disk.getMessageSource digest held = some bytes ∧
      ∀ j found, s₁.tasks.length ≤ j → s₂.tasks[j]? = some (.got held found) → found = some bytes) := by
  constructor
  · intro es s i held m s₁ es' s₂ bytes h ht hselect h' hgot
    have hn : s.Named digest := Run.preserves (I := Area.Named digest) (fun _ _ _ hn hstep => hn.step hstep) h hnamed
    rcases Area.step_cases hselect with ⟨op, he, -⟩ | ⟨j, m', t, d', t', he, ht', hstep, rfl⟩ | ⟨j, he, -⟩ |
      ⟨helds, he, -⟩ | ⟨refs, he, -⟩ | ⟨path, file, he, -⟩
    · cases he
    · cases he
      rw [ht, Option.some.injEq] at ht'
      subst ht'
      have hlt : i < s.tasks.length := (List.getElem?_eq_some_iff.mp ht).1
      -- what the select found stays with the task until it has read the file
      obtain ⟨u, hu, hsel⟩ := Run.preserves
        (I := fun r : Area => ∃ t, r.tasks[i]? = some t ∧ t.Selected digest held (s.disk.selectHash held))
        (fun _ _ _ hs hstep => Area.Selected.step hs hstep) h'
        ⟨t', by simp [hlt], Task.selected_of_step hstep⟩
      rw [hgot, Option.some.injEq] at hu
      subst hu
      obtain ⟨put, hput, hdigest⟩ := hn held (digest bytes) (hsel.2 bytes rfl)
      rw [hput, hinj hdigest]
    · cases he
    · cases he
    · cases he
    · cases he
  · intro es s i held bytes m s₁ es' s₂ h ht hrecord h'
    have hstaged : s.Staged digest := by
      refine Run.preserves (I := Area.Staged digest) (fun _ _ _ hs hstep => hs.step hinj hstep.2 hstep.1) h ?_
      intro held bytes hin
      rw [hnone] at hin
      cases hin
    have hserves : s₂.Serves digest held bytes s₁.tasks.length :=
      Run.preserves (I := Area.Serves digest held bytes s₁.tasks.length)
        (fun _ _ _ hv hstep => hv.step hinj hstep.1.2 hstep.2 hstep.1.1) h'
        (Area.serves_recorded hstaged ht hrecord)
    refine ⟨?_, fun j found hj hfound => hserves.gets j _ hj hfound rfl⟩
    unfold Disk.getMessageSource
    rw [hserves.row]
    exact Disk.readBlob_of_intact hserves.file

namespace Area.Sample

def hi : RawMime := [104, 105]

def hiHash : Hash := "8f434346648f6b96df89dda901c5176b10a6d83961dd3c1ac88b59b2dc327aa4"

/-- The SHA-256 of `hi`, and names of no other digest for everything else. -/
def digest (bytes : RawMime) : Hash :=
  if bytes = hi then hiHash else String.ofList ('-' :: bytes.map fun b => Char.ofNat b.toNat)

theorem digest_injective : Function.Injective digest := by
  have hother : ∀ bytes : RawMime, hiHash ≠ String.ofList ('-' :: bytes.map fun b => Char.ofNat b.toNat) := by
    intro bytes heq
    have hlists := congrArg String.toList heq
    rw [String.toList_ofList] at hlists
    have hhead : some '8' = some '-' := congrArg List.head? hlists
    exact absurd hhead (by decide)
  have hvalue : ∀ b : UInt8, (Char.ofNat b.toNat).toNat = b.toNat := by
    intro b
    have hb := UInt8.toNat_lt b
    have hvalid : b.toNat.isValidChar := .inl (by omega)
    unfold Char.ofNat
    rw [dif_pos hvalid]
    rfl
  have hchar : Function.Injective fun b : UInt8 => Char.ofNat b.toNat := by
    intro b c h
    have hsame : (Char.ofNat b.toNat).toNat = (Char.ofNat c.toNat).toNat := congrArg Char.toNat h
    rw [hvalue, hvalue] at hsame
    exact UInt8.toNat_inj.mp hsame
  intro x y h
  unfold digest at h
  by_cases hx : x = hi
  · by_cases hy : y = hi
    · rw [hx, hy]
    · rw [if_pos hx, if_neg hy] at h
      exact absurd h (hother y)
  · by_cases hy : y = hi
    · rw [if_neg hx, if_pos hy] at h
      exact absurd h.symm (hother x)
    · rw [if_neg hx, if_neg hy, String.ofList_inj, List.cons.injEq] at h
      exact List.map_injective_iff.mpr hchar h.2

/-- A directory with these files, and no rows. -/
def opened (files : Keyed Path BlobFile) : Area := ⟨⟨files, .empty, .empty⟩, [], .empty⟩

theorem opened_named (files : Keyed Path BlobFile) : (opened files).Named digest := fun _ _ h => nomatch h

def orphan (bytes : RawMime) : Keyed Path BlobFile := empty.put (.sources, hiHash) ⟨bytes, 0⟩

def m1 : Held := ("a", "m1")

/-- The put's steps up to its row. -/
def put : List FileEvent := [.begin (.put (.source m1) hi), .act 0 1]

def sweep : List FileEvent :=
  [.begin (.sweepUnreferencedBlobs (10 * 60 * second)), .act 0 0, .act 0 0]

def twoOrphans : Keyed Path BlobFile := (orphan hi).put (.sources, digest [104, 111]) ⟨[104, 111], 0⟩

def listedThenPut : List FileEvent :=
  [.begin (.sweepUnreferencedBlobs (10 * 60 * second)), .act 0 0, .begin (.put (.source m1) hi), .act 1 1]

def sweptThenGot : List FileEvent :=
  [.act 0 0, .act 0 0, .act 0 0, .act 0 0, .begin (.getMessageSource m1), .act 2 0, .act 2 0]

def run (s : Area) (es : List FileEvent) : Option Area := es.foldlM (Area.step digest) s

def carefulRun (s : Area) (es : List FileEvent) : Option Area :=
  es.foldlM (fun s e => if s.careful digest e then s.step digest e else none) s

def untouched (s : Area) (es : List FileEvent) : Option Area :=
  es.foldlM (fun s e => if s.touches digest m1 hi e then none else s.step digest e) s

def carefulUntouched (s : Area) (es : List FileEvent) : Option Area :=
  es.foldlM (fun s e => if s.careful digest e && !s.touches digest m1 hi e then s.step digest e else none) s

variable {s s' : Area} {es : List FileEvent}

theorem careful_of_foldlM (h : carefulRun s es = some s') :
    Run (fun s e s' => s.Steps digest e s' ∧ s.careful digest e = true) s es s' := by
  refine Run.mono ?_ (Run.of_foldlM h)
  intro s e _ s' hstep
  by_cases hc : s.careful digest e = true
  · rw [if_pos hc] at hstep
    exact ⟨hstep, hc⟩
  · rw [if_neg hc] at hstep
    cases hstep

theorem untouched_of_foldlM (h : untouched s es = some s') :
    Run (fun s e s' => s.Steps digest e s' ∧ s.touches digest m1 hi e = false) s es s' := by
  refine Run.mono ?_ (Run.of_foldlM h)
  intro s e _ s' hstep
  by_cases ht : s.touches digest m1 hi e = true
  · rw [if_pos ht] at hstep
    cases hstep
  · rw [if_neg ht] at hstep
    exact ⟨hstep, Bool.eq_false_iff.mpr ht⟩

theorem carefulUntouched_of_foldlM (h : carefulUntouched s es = some s') :
    Run (fun s e s' => (s.Steps digest e s' ∧ s.careful digest e = true) ∧ s.touches digest m1 hi e = false) s es s' := by
  refine Run.mono ?_ (Run.of_foldlM h)
  intro s e _ s' hstep
  by_cases hc : (s.careful digest e && !s.touches digest m1 hi e) = true
  · rw [if_pos hc] at hstep
    rw [Bool.and_eq_true, Bool.not_eq_true'] at hc
    exact ⟨⟨hstep, hc.1⟩, hc.2⟩
  · rw [if_neg hc] at hstep
    cases hstep

end Area.Sample

open Area.Sample in
/-- A put finds an old intact file that a sweep has listed, and writes its row before the sweep
reads the rows: the sweep goes on to remove the other orphan alone. -/
theorem source_reads_back_beside_sweep : ∃ s s₁ s₂, carefulRun (opened twoOrphans) listedThenPut = some s ∧
      s.step digest (.act 1 1) = some s₁ ∧ carefulUntouched s₁ sweptThenGot = some s₂ ∧
      s₂.disk.getMessageSource digest m1 = some hi ∧
      s₂.tasks[0]? = some (.swept ⟨1, 2⟩) ∧ s₂.disk.files.keys = [(.sources, hiHash)] := by
  have hrun : ∃ s, carefulRun (opened twoOrphans) listedThenPut = some s ∧
      s.tasks[1]? = some (.recording (.source m1) hi) ∧
      ∃ s₁, s.step digest (.act 1 1) = some s₁ ∧ ∃ s₂, carefulUntouched s₁ sweptThenGot = some s₂ ∧
        s₂.tasks[0]? = some (.swept ⟨1, 2⟩) ∧ s₂.disk.files.keys = [(.sources, hiHash)] := by
    decide
  obtain ⟨s, hput, htask, s₁, hrecord, s₂, hget, hswept, hkeys⟩ := hrun
  refine ⟨s, s₁, s₂, hput, hrecord, hget, ?_, hswept, hkeys⟩
  exact ((@source_reads_back digest digest_injective (opened twoOrphans) rfl (opened_named _)).2 _ _ _ _ _ _ _ _ _
    (careful_of_foldlM hput) htask hrecord (carefulUntouched_of_foldlM hget)).1

open Area.Sample in
/-- A put that finds a damaged file leaves it, and reads nothing back.  So does one that finds an old file a
sweep has already judged. -/
theorem source_reads_nothing_back : (∃ s i m s₁, Run (Area.Steps digest) (opened (orphan [104])) put s ∧
      s.tasks[i]? = some (.recording (.source m1) hi) ∧ s.Steps digest (.act i m) s₁ ∧
      s₁.disk.getMessageSource digest m1 ≠ some hi) ∧
    (∃ es s i m s₁ es' s₂, Run (Area.Steps digest) (opened (orphan hi)) es s ∧
      s.tasks[i]? = some (.recording (.source m1) hi) ∧ s.Steps digest (.act i m) s₁ ∧
      Run (fun s e s' => s.Steps digest e s' ∧ s.touches digest m1 hi e = false) s₁ es' s₂ ∧
      s₂.disk.getMessageSource digest m1 ≠ some hi) := by
  have hdamaged : ∃ s, run (opened (orphan [104])) put = some s ∧ s.tasks[0]? = some (.recording (.source m1) hi) ∧
      ∃ s₁, s.step digest (.act 0 1) = some s₁ ∧ s₁.disk.getMessageSource digest m1 ≠ some hi := by
    decide
  have hswept : ∃ s, run (opened (orphan hi)) (sweep ++ [.begin (.put (.source m1) hi), .act 1 1]) = some s ∧
      s.tasks[1]? = some (.recording (.source m1) hi) ∧
      ∃ s₁, s.step digest (.act 1 1) = some s₁ ∧
      ∃ s₂, untouched s₁ [.act 0 0] = some s₂ ∧ s₂.disk.getMessageSource digest m1 ≠ some hi := by
    decide
  obtain ⟨s, hput, htask, s₁, hrecord, hlost⟩ := hdamaged
  obtain ⟨r, hput', htask', r₁, hrecord', r₂, hrest, hlost'⟩ := hswept
  exact ⟨⟨s, 0, 1, s₁, Run.of_foldlM hput, htask, hrecord, hlost⟩,
    ⟨_, r, 1, 1, r₁, _, r₂, Run.of_foldlM hput', htask', hrecord', untouched_of_foldlM hrest, hlost'⟩⟩

end Content
end SyncEngine
