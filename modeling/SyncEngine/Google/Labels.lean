import SyncEngine.Library.Fallible
import SyncEngine.Outbox.MailboxPlan

/-!
# Renaming a Gmail label

A label nests under another only because its name starts with the other's name and a `/`, so a rename or a move
patches every label beneath one by one, and the label itself last.  An attempt cut short is made again on the labels
as it left them.
-/

namespace SyncEngine
namespace Google

open Outbox (MailboxId)

/-- One label by its full `/`-joined name. -/
structure Label where
  id : String
  name : List Char
  user : Bool
deriving DecidableEq

/-- One `labels.patch`: the id of the label, and the name it gets. -/
structure Patch where
  id : String
  name : List Char
deriving DecidableEq

/-! ## The update -/

def allMailId : String := "ALL_MAIL"

def systemLabel : ProviderError := .invalidState "a system label cannot be changed"

/-- A label that is gone is a conflict, and neither a system label nor All Mail is the user's to change. -/
def userLabel (all : List Label) (id : MailboxId) : Except ProviderError Label :=
  if id = allMailId then .error systemLabel
  else
    match all.find? fun l => l.id = id with
    | none => .error (.conflict "the label is gone")
    | some label => if label.user then .ok label else .error systemLabel

/-- What the full name of a label inside `parent` starts with, empty at the top level. -/
def parentName (all : List Label) : Option MailboxId → Except ProviderError (List Char)
  | none => .ok []
  | some parent => (userLabel all parent).map Label.name

def joined (parent name : List Char) : List Char := if parent = [] then name else parent ++ '/' :: name

/-- The part of a name below the label called `old`. -/
def below (old : List Char) (other : Label) : Option (List Char) := stripFront (old ++ ['/']) other.name

def renames (all : List Label) (old full : List Char) : List Patch :=
  all.filterMap fun other => (below old other).map fun rest => ⟨other.id, full ++ '/' :: rest⟩

def taken (all : List Label) (patches : List Patch) : Bool :=
  patches.any fun p => all.any fun other => !(patches.map Patch.id).contains other.id && other.name = p.name

def update (all : List Label) (target : MailboxId) (name : List Char) (parent : Option MailboxId) :
    Except ProviderError (List Patch) := do
  let label ← userLabel all target
  let above ← parentName all parent
  let full := joined above name
  if full = label.name then return []
  let patches := renames all label.name full ++ [⟨label.id, full⟩]
  if taken all patches then throw (.conflict "another label already has that name")
  return patches

/-! ## The account -/

/-- The labels of an account: no two share an id, and no two share a name. -/
structure Account where
  labels : List Label
  ids : (labels.map Label.id).Nodup
  names : (labels.map Label.name).Nodup

def patch (all : List Label) (p : Patch) : List Label :=
  all.map fun l => if l.id = p.id then { l with name := p.name } else l

def patched (all : List Label) (patches : List Patch) : List Label := patches.foldl patch all

section Runs

variable (target : MailboxId) (name : List Char) (parent : Option MailboxId)

/-- The labels after a number of attempts, each of them stopped somewhere. -/
inductive CutShort (all : List Label) : List Label → Prop
  | start : CutShort all all
  | attempt {now : List Label} {patches done : List Patch} (reached : CutShort all now)
      (sent : update now target name parent = .ok patches) (cut : done <+: patches) : CutShort all (patched now done)

/-- Every patch of a sequence sets a name that no other label has when it is made. -/
def ClashFree (all : List Label) (patches : List Patch) : Prop :=
  ∀ before p after, patches = before ++ p :: after → ∀ l ∈ patched all before, l.id ≠ p.id → l.name ≠ p.name

/-- However often an update was cut short, the next attempt passes the checks and no patch of it clashes, and with it
the labels are named as the uncut run names them. -/
def RenamesSafely (all : List Label) : Prop :=
  ∀ final, update all target name parent = .ok final → ∀ now, CutShort target name parent all now →
    ∃ patches, update now target name parent = .ok patches ∧ ClashFree now patches ∧ patched now patches = patched all final

def ParentOutside (all : List Label) : Prop :=
  ∀ label p, userLabel all target = .ok label → ∀ id, parent = some id → userLabel all id = .ok p →
    p.id ≠ label.id ∧ below label.name p = none

def LeavesOldName (all : List Label) : Prop :=
  ∀ label above, userLabel all target = .ok label → parentName all parent = .ok above →
    let full := joined above name
    full = label.name ∨ ∀ p ∈ renames all label.name full,
      p.name ≠ label.name ∧ stripFront (label.name ++ ['/']) p.name = none

end Runs

/-! ## One sequence of patches -/

section Moved

variable {all : List Label} {old full : List Char} {done : List String} {l : Label}

def newName (old full : List Char) (l : Label) : List Char :=
  match below old l with
  | some rest => full ++ '/' :: rest
  | none => full

def toPatch (old full : List Char) (l : Label) : Patch := ⟨l.id, newName old full l⟩

/-- A label once the patches of the ids in `done` are made. -/
def moved (old full : List Char) (done : List String) (l : Label) : Label :=
  if l.id ∈ done then { l with name := newName old full l } else l

variable {rest : List Char}

theorem below_eq_some_iff : below old l = some rest ↔ l.name = old ++ '/' :: rest := by
  unfold below
  rw [stripFront_eq_some_iff, List.append_assoc]
  rfl

theorem below_self (h : l.name = old) : below old l = none := by
  cases hbelow : below old l with
  | none => rfl
  | some rest =>
    have hlength := congrArg List.length (below_eq_some_iff.mp hbelow)
    rw [h] at hlength
    simp at hlength

theorem newName_of_below (h : below old l = some rest) : newName old full l = full ++ '/' :: rest := by
  unfold newName
  rw [h]

theorem newName_self (h : l.name = old) : newName old full l = full := by
  unfold newName
  rw [below_self h]

theorem eq_of_newName_eq {l' : Label} {rest' : List Char} (h : below old l = some rest) (h' : below old l' = some rest')
    (heq : newName old full l = newName old full l') : l.name = l'.name := by
  rw [newName_of_below h, newName_of_below h'] at heq
  have hrest := (List.cons.inj (List.append_cancel_left heq)).2
  rw [below_eq_some_iff.mp h, below_eq_some_iff.mp h', hrest]

theorem newName_ne_full (h : below old l = some rest) : newName old full l ≠ full := by
  intro heq
  have hlength := congrArg List.length heq
  rw [newName_of_below h] at hlength
  simp at hlength

theorem renames_eq (all : List Label) (old full : List Char) :
    renames all old full = (all.filter fun l => (below old l).isSome).map (toPatch old full) := by
  induction all with
  | nil => rfl
  | cons l all ih =>
    unfold renames at ih ⊢
    cases hbelow : below old l with
    | none =>
      rw [List.filterMap_cons_none (by rw [hbelow]; rfl), ih, List.filter_cons_of_neg (by simp [hbelow])]
    | some rest =>
      have hhead : (below old l).map (fun rest => (⟨l.id, full ++ '/' :: rest⟩ : Patch)) = some (toPatch old full l) := by
        rw [hbelow]
        show some (⟨l.id, full ++ '/' :: rest⟩ : Patch) = some ⟨l.id, newName old full l⟩
        rw [newName_of_below hbelow]
      rw [List.filter_cons_of_pos (by simp [hbelow]), List.map_cons, ← ih]
      simp only [List.filterMap_cons, hhead]

@[simp] theorem moved_id : (moved old full done l).id = l.id := by
  unfold moved
  split <;> rfl

@[simp] theorem moved_user : (moved old full done l).user = l.user := by
  unfold moved
  split <;> rfl

theorem moved_of_mem (h : l.id ∈ done) : (moved old full done l).name = newName old full l := by
  unfold moved
  rw [if_pos h]

theorem moved_of_notMem (h : l.id ∉ done) : moved old full done l = l := by
  unfold moved
  rw [if_neg h]

theorem moved_congr {done' : List String} (h : l.id ∈ done ↔ l.id ∈ done') : moved old full done l = moved old full done' l := by
  unfold moved
  simp only [h]

theorem patch_moved (hids : (all.map Label.id).Nodup) (hl : l ∈ all) :
    patch (all.map (moved old full done)) (toPatch old full l) = all.map (moved old full (done ++ [l.id])) := by
  unfold patch
  rw [List.map_map]
  apply List.map_congr_left
  intro m hm
  show (if (moved old full done m).id = l.id then { moved old full done m with name := newName old full l }
    else moved old full done m) = _
  rw [moved_id]
  by_cases hid : m.id = l.id
  · have hml : m = l := List.inj_on_of_nodup_map hids hm hl hid
    rw [if_pos hid, hml]
    have hmem : l.id ∈ done ++ [l.id] := List.mem_append_right _ List.mem_cons_self
    unfold moved
    rw [if_pos hmem]
    split <;> rfl
  · rw [if_neg hid]
    apply moved_congr
    simp [hid]

theorem patched_moved (hids : (all.map Label.id).Nodup) : ∀ (ls : List Label) (done : List String), (∀ l ∈ ls, l ∈ all) →
      patched (all.map (moved old full done)) (ls.map (toPatch old full)) =
        all.map (moved old full (done ++ ls.map Label.id))
  | [], done, _ => by rw [List.map_nil, List.map_nil, List.append_nil]; rfl
  | l :: ls, done, h => by
    have hrest := patched_moved hids ls (done ++ [l.id]) fun m hm => h m (List.mem_cons_of_mem l hm)
    show patched (patch (all.map (moved old full done)) (toPatch old full l)) (ls.map (toPatch old full)) = _
    rw [patch_moved hids (h l List.mem_cons_self), hrest, List.append_assoc]
    rfl

theorem map_moved_nil (all : List Label) : all.map (moved old full []) = all := by
  apply List.map_id''
  intro l
  exact moved_of_notMem List.not_mem_nil

end Moved

/-! ## What an update reads -/

section Reads

variable {all : List Label} {target : MailboxId} {name : List Char} {parent : Option MailboxId} {old full : List Char}
variable {done : List String} {label : Label} {patches : List Patch}

theorem userLabel_eq_ok_iff : userLabel all target = .ok label ↔
    target ≠ allMailId ∧ (all.find? fun l => l.id = target) = some label ∧ label.user = true := by
  unfold userLabel
  by_cases hall : target = allMailId
  · simp [hall]
  · rw [if_neg hall]
    cases hfind : all.find? fun l => l.id = target with
    | none => simp
    | some l =>
      cases huser : l.user with
      | false =>
        have hne : l = label → label.user = false := fun heq => heq ▸ huser
        simpa [huser] using fun _ => hne
      | true =>
        have heq : l = label → label.user = true := fun heq => heq ▸ huser
        simpa [huser, hall] using heq

theorem mem_of_userLabel (h : userLabel all target = .ok label) : label ∈ all ∧ label.id = target := by
  obtain ⟨-, hfind, -⟩ := userLabel_eq_ok_iff.mp h
  exact ⟨List.mem_of_find?_eq_some hfind, by simpa using List.find?_some hfind⟩

theorem userLabel_moved (h : userLabel all target = .ok label) :
    userLabel (all.map (moved old full done)) target = .ok (moved old full done label) := by
  obtain ⟨hall, hfind, huser⟩ := userLabel_eq_ok_iff.mp h
  rw [userLabel_eq_ok_iff, moved_user]
  refine ⟨hall, ?_, huser⟩
  rw [List.find?_map]
  have hsame : ((fun l : Label => decide (l.id = target)) ∘ moved old full done) = fun l => decide (l.id = target) := by
    funext l
    show decide ((moved old full done l).id = target) = _
    rw [moved_id]
  rw [hsame, hfind]
  rfl

theorem parentName_moved {above : List Char} (h : parentName all parent = .ok above)
    (hstays : ∀ id p, parent = some id → userLabel all id = .ok p → p.id ∉ done) :
    parentName (all.map (moved old full done)) parent = .ok above := by
  cases parent with
  | none => exact h
  | some id =>
    obtain ⟨p, hp, habove⟩ : ∃ p, userLabel all id = .ok p ∧ p.name = above := by
      cases hp : userLabel all id with
      | error e =>
        have hbad : (userLabel all id).map Label.name = .ok above := h
        rw [hp] at hbad
        exact nomatch hbad
      | ok p =>
        have hname : (userLabel all id).map Label.name = .ok above := h
        rw [hp] at hname
        exact ⟨p, rfl, Except.ok.inj hname⟩
    show (userLabel (all.map (moved old full done)) id).map Label.name = _
    rw [userLabel_moved hp, moved_of_notMem (hstays id p rfl hp)]
    exact congrArg Except.ok habove

theorem update_eq (hlabel : userLabel all target = .ok label) {above : List Char} (habove : parentName all parent = .ok above) :
    update all target name parent =
      if joined above name = label.name then .ok []
      else if taken all (renames all label.name (joined above name) ++ [⟨label.id, joined above name⟩]) then
        .error (.conflict "another label already has that name")
      else .ok (renames all label.name (joined above name) ++ [⟨label.id, joined above name⟩]) := by
  unfold update
  rw [hlabel, habove]
  show (if joined above name = label.name then (pure [] : Except ProviderError (List Patch)) else _) = _
  by_cases hsame : joined above name = label.name
  · rw [if_pos hsame, if_pos hsame]
    rfl
  · rw [if_neg hsame, if_neg hsame]
    by_cases htaken : taken all (renames all label.name (joined above name) ++ [⟨label.id, joined above name⟩])
    · simp only [htaken, if_true]
      rfl
    · simp only [htaken]
      rfl

theorem exists_of_update (h : update all target name parent = .ok patches) :
    ∃ label above, userLabel all target = .ok label ∧ parentName all parent = .ok above := by
  unfold update at h
  obtain ⟨label, hlabel, h⟩ := Fallible.bind_eq_ok.mp h
  obtain ⟨above, habove, -⟩ := Fallible.bind_eq_ok.mp h
  exact ⟨label, above, hlabel, habove⟩

theorem not_taken_iff : taken all patches = false ↔
    ∀ p ∈ patches, ∀ other ∈ all, other.id ∉ patches.map Patch.id → other.name ≠ p.name := by
  unfold taken
  simp only [List.any_eq_false, List.any_eq_true, not_exists, not_and, Bool.and_eq_true, Bool.not_eq_true',
    decide_eq_true_eq, List.contains_eq_mem, decide_eq_false_iff_not, ne_eq]

/-- The labels below the name `old`, in the order of the list. -/
def beneath (old : List Char) (all : List Label) : List Label := all.filter fun l => (below old l).isSome

theorem mem_beneath {l : Label} : l ∈ beneath old all ↔ l ∈ all ∧ ∃ rest, below old l = some rest := by
  unfold beneath
  rw [List.mem_filter, Option.isSome_iff_exists]

theorem patches_eq (all : List Label) (label : Label) (full : List Char) :
    renames all label.name full ++ [⟨label.id, full⟩] = (beneath label.name all ++ [label]).map (toPatch label.name full) := by
  rw [renames_eq, List.map_append]
  show _ = _ ++ [(⟨label.id, newName label.name full label⟩ : Patch)]
  rw [newName_self rfl]
  rfl

theorem map_id_toPatch (ls : List Label) : (ls.map (toPatch old full)).map Patch.id = ls.map Label.id := by
  rw [List.map_map]
  rfl

end Reads

/-! ## Attempt after attempt -/

/-- An update that passes its checks, sends something, and gives no label beneath the label's old name or a name
beneath it. -/
structure Renaming (a : Account) (target : MailboxId) (name : List Char) (parent : Option MailboxId) (label : Label)
    (full : List Char) : Prop where
  found : userLabel a.labels target = .ok label
  inside : ∃ above, parentName a.labels parent = .ok above ∧ joined above name = full
  outside : ∀ id p, parent = some id → userLabel a.labels id = .ok p → p.id ≠ label.id ∧ below label.name p = none
  changes : full ≠ label.name
  free : taken a.labels ((beneath label.name a.labels ++ [label]).map (toPatch label.name full)) = false
  leaves : ∀ l ∈ beneath label.name a.labels,
    newName label.name full l ≠ label.name ∧ stripFront (label.name ++ ['/']) (newName label.name full l) = none

namespace Renaming

variable {a : Account} {target : MailboxId} {name : List Char} {parent : Option MailboxId} {label : Label}
variable {full : List Char} {done : List String}

def Partway (a : Account) (label : Label) (done : List String) : Prop :=
  ∀ id ∈ done, ∃ l ∈ beneath label.name a.labels, l.id = id

def left (a : Account) (label : Label) (done : List String) : List Label :=
  (beneath label.name a.labels).filter fun l => l.id ∉ done

variable {l : Label}

theorem mem_left : l ∈ left a label done ↔ l ∈ beneath label.name a.labels ∧ l.id ∉ done := by
  unfold left
  rw [List.mem_filter, decide_eq_true_eq]

variable {l' : Label}

theorem eq_of_id (a : Account) (hl : l ∈ a.labels) (hl' : l' ∈ a.labels) (h : l.id = l'.id) : l = l' :=
  List.inj_on_of_nodup_map a.ids hl hl' h

theorem eq_of_name (a : Account) (hl : l ∈ a.labels) (hl' : l' ∈ a.labels) (h : l.name = l'.name) : l = l' :=
  List.inj_on_of_nodup_map a.names hl hl' h

theorem beneath_of_mem (hdone : Partway a label done) (hl : l ∈ a.labels) (h : l.id ∈ done) :
    l ∈ beneath label.name a.labels := by
  obtain ⟨l', hl', hid⟩ := hdone l.id h
  rw [eq_of_id a hl (mem_beneath.mp hl').1 hid.symm]
  exact hl'

theorem partway_append (hdone : Partway a label done) {ls : List Label} (hls : ∀ l ∈ ls, l ∈ left a label done) :
    Partway a label (done ++ ls.map Label.id) := by
  intro id hid
  cases List.mem_append.mp hid with
  | inl hid => exact hdone id hid
  | inr hid =>
    obtain ⟨l, hl, rfl⟩ := List.mem_map.mp hid
    exact ⟨l, (mem_left.mp (hls l hl)).1, rfl⟩

variable (r : Renaming a target name parent label full)

include r

theorem label_mem : label ∈ a.labels := (mem_of_userLabel r.found).1

theorem label_notMem (hdone : Partway a label done) : label.id ∉ done := by
  intro h
  obtain ⟨rest, hrest⟩ := (mem_beneath.mp (beneath_of_mem hdone r.label_mem h)).2
  rw [below_self rfl] at hrest
  exact nomatch hrest

variable {m : Label}

theorem moved_name_ne (hdone : Partway a label done) (hl : l ∈ a.labels)
    (hm : m ∈ beneath label.name a.labels ++ [label]) (hid : l.id ≠ m.id)
    (hlast : m = label → l ∈ beneath label.name a.labels → l.id ∈ done) :
    (moved label.name full done l).name ≠ newName label.name full m := by
  intro heq
  by_cases hmem : l.id ∈ done
  · rw [moved_of_mem hmem] at heq
    obtain ⟨-, rest, hrest⟩ := mem_beneath.mp (beneath_of_mem hdone hl hmem)
    cases List.mem_append.mp hm with
    | inl hm =>
      obtain ⟨hm, rest', hrest'⟩ := mem_beneath.mp hm
      exact hid (congrArg Label.id (eq_of_name a hl hm (eq_of_newName_eq hrest hrest' heq)))
    | inr hm =>
      have hname : newName label.name full l ≠ full := newName_ne_full hrest
      rw [List.mem_singleton.mp hm, newName_self rfl] at heq
      exact hname heq
  · rw [moved_of_notMem hmem] at heq
    by_cases hmoves : l ∈ beneath label.name a.labels ++ [label]
    · -- The label or one beneath, not patched yet: only another beneath can be the one patched.
      have hm : m ∈ beneath label.name a.labels := by
        cases List.mem_append.mp hm with
        | inl hm => exact hm
        | inr hm =>
          have hml := List.mem_singleton.mp hm
          cases List.mem_append.mp hmoves with
          | inl hl => exact absurd (hlast hml hl) hmem
          | inr hl => exact absurd (congrArg Label.id ((List.mem_singleton.mp hl).trans hml.symm)) hid
      obtain ⟨hself, hbelow⟩ := r.leaves m hm
      cases List.mem_append.mp hmoves with
      | inl hl =>
        obtain ⟨-, rest, hrest⟩ := mem_beneath.mp hl
        rw [← heq] at hbelow
        have hsome : stripFront (label.name ++ ['/']) l.name = some rest := hrest
        rw [hbelow] at hsome
        exact nomatch hsome
      | inr hl =>
        rw [List.mem_singleton.mp hl] at heq
        exact hself heq.symm
    · have hstays : l.id ∉ ((beneath label.name a.labels ++ [label]).map (toPatch label.name full)).map Patch.id := by
        rw [map_id_toPatch]
        intro h
        obtain ⟨l', hl', hid'⟩ := List.mem_map.mp h
        have hmem' : l' ∈ a.labels := by
          cases List.mem_append.mp hl' with
          | inl h => exact (mem_beneath.mp h).1
          | inr h => exact List.mem_singleton.mp h ▸ r.label_mem
        exact hmoves (eq_of_id a hl hmem' hid'.symm ▸ hl')
      exact not_taken_iff.mp r.free _ (List.mem_map_of_mem hm) l hl hstays heq

theorem beneath_moved (hdone : Partway a label done) :
    beneath label.name (a.labels.map (moved label.name full done)) = left a label done := by
  have hbelow : ∀ l ∈ a.labels, (below label.name (moved label.name full done l)).isSome =
      ((below label.name l).isSome && decide (l.id ∉ done)) := by
    intro l hl
    by_cases hmem : l.id ∈ done
    · have hnone : below label.name (moved label.name full done l) = none := by
        unfold below
        rw [moved_of_mem hmem]
        exact (r.leaves l (beneath_of_mem hdone hl hmem)).2
      simp [hnone, hmem]
    · rw [moved_of_notMem hmem]
      simp [hmem]
  unfold left beneath
  rw [List.filter_map, List.filter_filter]
  have hfilter : a.labels.filter ((fun l => (below label.name l).isSome) ∘ moved label.name full done) =
      a.labels.filter fun l => decide (l.id ∉ done) && (below label.name l).isSome := by
    apply List.filter_congr
    intro l hl
    rw [Bool.and_comm]
    exact hbelow l hl
  have hsame : ∀ l ∈ a.labels.filter (fun l => decide (l.id ∉ done) && (below label.name l).isSome),
      moved label.name full done l = id l := by
    intro l hl
    have hnot := (Bool.and_eq_true_iff.mp (List.mem_filter.mp hl).2).1
    exact moved_of_notMem (decide_eq_true_eq.mp hnot)
  rw [hfilter, List.map_congr_left hsame, List.map_id]

theorem update_partway (hdone : Partway a label done) :
    update (a.labels.map (moved label.name full done)) target name parent =
      .ok ((left a label done ++ [label]).map (toPatch label.name full)) := by
  obtain ⟨above, habove, hfull⟩ := r.inside
  have hlabel : userLabel (a.labels.map (moved label.name full done)) target = .ok (moved label.name full done label) :=
    userLabel_moved r.found
  rw [moved_of_notMem (r.label_notMem hdone)] at hlabel
  have habove' : parentName (a.labels.map (moved label.name full done)) parent = .ok above := by
    apply parentName_moved habove
    intro id p hid hp hmem
    obtain ⟨l, hl, hlid⟩ := hdone p.id hmem
    obtain ⟨hl, rest, hrest⟩ := mem_beneath.mp hl
    rw [eq_of_id a hl (mem_of_userLabel hp).1 hlid, (r.outside id p hid hp).2] at hrest
    exact nomatch hrest
  rw [update_eq hlabel habove', hfull, if_neg r.changes, patches_eq, r.beneath_moved hdone]
  have hfree : taken (a.labels.map (moved label.name full done))
      ((left a label done ++ [label]).map (toPatch label.name full)) = false := by
    rw [not_taken_iff, map_id_toPatch]
    intro p hp other hother hid
    obtain ⟨m, hm, rfl⟩ := List.mem_map.mp hp
    obtain ⟨l, hl, rfl⟩ := List.mem_map.mp hother
    rw [moved_id] at hid
    apply r.moved_name_ne hdone hl
    · cases List.mem_append.mp hm with
      | inl hm => exact List.mem_append_left _ (mem_left.mp hm).1
      | inr hm => exact List.mem_append_right _ hm
    · intro heq
      exact hid (heq ▸ List.mem_map_of_mem hm)
    · intro _ hbeneath
      by_contra hmem
      exact hid (List.mem_map_of_mem (List.mem_append_left _ (mem_left.mpr ⟨hbeneath, hmem⟩)))
  rw [hfree]
  rfl

theorem mem_labels (hm : m ∈ left a label done ++ [label]) : m ∈ a.labels := by
  cases List.mem_append.mp hm with
  | inl hm => exact (mem_beneath.mp (mem_left.mp hm).1).1
  | inr hm => exact List.mem_singleton.mp hm ▸ r.label_mem

theorem clashFree_partway (hdone : Partway a label done) :
    ClashFree (a.labels.map (moved label.name full done)) ((left a label done ++ [label]).map (toPatch label.name full)) := by
  intro before p after hsplit other hother hid
  obtain ⟨ls, tail, hls, rfl, htail⟩ := List.map_eq_append_iff.mp hsplit
  obtain ⟨m, ms, rfl, rfl, -⟩ := List.map_eq_cons_iff.mp htail
  have hmem : ∀ l ∈ ls ++ m :: ms, l ∈ a.labels := fun l hl => r.mem_labels (hls ▸ hl)
  rw [patched_moved a.ids ls done fun l hl => hmem l (List.mem_append_left _ hl)] at hother
  obtain ⟨l, hl, rfl⟩ := List.mem_map.mp hother
  rw [moved_id] at hid
  -- Either the label itself is patched and nothing is left, or one beneath.
  obtain ⟨hbefore, hm, hlast⟩ : (∀ l ∈ ls, l ∈ left a label done) ∧ m ∈ beneath label.name a.labels ++ [label] ∧
      (m = label → ls = left a label done) := by
    cases List.eq_nil_or_concat ms with
    | inl hnil =>
      rw [hnil] at hls
      obtain ⟨hleft, hm⟩ := List.append_inj' hls rfl
      refine ⟨fun l hl => hleft ▸ hl, ?_, fun _ => hleft.symm⟩
      rw [← List.singleton_injective hm]
      exact List.mem_append_right _ List.mem_cons_self
    | inr hconcat =>
      obtain ⟨ms, x, rfl⟩ := hconcat
      rw [List.concat_eq_append] at hls
      have hleft := (List.append_inj' (hls.trans (List.append_assoc ls (m :: ms) [x]).symm) rfl).1
      have hm : m ∈ left a label done := hleft ▸ List.mem_append_right _ List.mem_cons_self
      refine ⟨fun l hl => hleft ▸ List.mem_append_left _ hl, List.mem_append_left _ (mem_left.mp hm).1, ?_⟩
      intro heq
      obtain ⟨-, rest, hrest⟩ := mem_beneath.mp (mem_left.mp hm).1
      rw [heq, below_self rfl] at hrest
      exact nomatch hrest
  apply r.moved_name_ne (partway_append hdone hbefore) hl hm hid
  intro heq hbeneath
  by_cases hmem : l.id ∈ done
  · exact List.mem_append_left _ hmem
  · rw [hlast heq]
    exact List.mem_append_right _ (List.mem_map_of_mem (mem_left.mpr ⟨hbeneath, hmem⟩))

/-- The labels once everything is patched. -/
def final (a : Account) (label : Label) (full : List Char) : List Label :=
  a.labels.map (moved label.name full ((beneath label.name a.labels ++ [label]).map Label.id))

theorem patched_partway (hdone : Partway a label done) :
    patched (a.labels.map (moved label.name full done)) ((left a label done ++ [label]).map (toPatch label.name full)) =
      final a label full := by
  rw [patched_moved a.ids _ done fun l hl => r.mem_labels hl]
  apply List.map_congr_left
  intro l hl
  apply moved_congr
  constructor
  · intro hmem
    cases List.mem_append.mp hmem with
    | inl hmem => exact List.mem_map_of_mem (List.mem_append_left _ (beneath_of_mem hdone hl hmem))
    | inr hmem =>
      obtain ⟨m, hm, hid⟩ := List.mem_map.mp hmem
      rw [← hid]
      apply List.mem_map_of_mem
      cases List.mem_append.mp hm with
      | inl hm => exact List.mem_append_left _ (mem_left.mp hm).1
      | inr hm => exact List.mem_append_right _ hm
  · intro hmem
    obtain ⟨m, hm, hid⟩ := List.mem_map.mp hmem
    by_cases hdone' : l.id ∈ done
    · exact List.mem_append_left _ hdone'
    · rw [← hid] at hdone' ⊢
      apply List.mem_append_right
      apply List.mem_map_of_mem
      cases List.mem_append.mp hm with
      | inl hm => exact List.mem_append_left _ (mem_left.mpr ⟨hm, hdone'⟩)
      | inr hm => exact List.mem_append_right _ hm

theorem update_final : update (final a label full) target name parent = .ok [] := by
  obtain ⟨above, habove, hfull⟩ := r.inside
  have hlabel : userLabel (a.labels.map (moved label.name full ((beneath label.name a.labels ++ [label]).map Label.id))) target =
      .ok (moved label.name full ((beneath label.name a.labels ++ [label]).map Label.id) label) :=
    userLabel_moved r.found
  have hself : label.id ∈ (beneath label.name a.labels ++ [label]).map Label.id :=
    List.mem_map_of_mem (List.mem_append_right _ List.mem_cons_self)
  have habove' : parentName (final a label full) parent = .ok above := by
    apply parentName_moved habove
    intro id p hid hp hmem
    obtain ⟨hne, hnone⟩ := r.outside id p hid hp
    obtain ⟨l, hl, hlid⟩ := List.mem_map.mp hmem
    cases List.mem_append.mp hl with
    | inl hl =>
      obtain ⟨hl, rest, hrest⟩ := mem_beneath.mp hl
      rw [eq_of_id a hl (mem_of_userLabel hp).1 hlid, hnone] at hrest
      exact nomatch hrest
    | inr hl => exact hne (List.mem_singleton.mp hl ▸ hlid.symm)
  have hname : joined above name = (moved label.name full
      ((beneath label.name a.labels ++ [label]).map Label.id) label).name := by
    rw [moved_of_mem hself, newName_self rfl, hfull]
  unfold final at habove' ⊢
  rw [update_eq hlabel habove', if_pos hname]

theorem of_cutShort {now : List Label} (h : CutShort target name parent a.labels now) :
    (∃ done, Partway a label done ∧ now = a.labels.map (moved label.name full done)) ∨ now = final a label full := by
  induction h with
  | start => exact Or.inl ⟨[], fun _ hid => absurd hid List.not_mem_nil, (map_moved_nil a.labels).symm⟩
  | @attempt now patches cut reached sent hcut ih =>
    cases ih with
    | inl ih =>
      obtain ⟨done, hdone, rfl⟩ := ih
      rw [r.update_partway hdone] at sent
      obtain rfl := Except.ok.inj sent
      obtain ⟨tail, htail⟩ := hcut
      obtain ⟨ls, ms, hls, rfl, -⟩ := List.map_eq_append_iff.mp htail.symm
      cases List.eq_nil_or_concat ms with
      | inl hnil =>
        rw [hnil, List.append_nil] at hls
        rw [← hls, r.patched_partway hdone]
        exact Or.inr rfl
      | inr hconcat =>
        obtain ⟨ms, x, rfl⟩ := hconcat
        rw [List.concat_eq_append] at hls
        have hleft := (List.append_inj' (hls.trans (List.append_assoc ls ms [x]).symm) rfl).1
        have hmem : ∀ l ∈ ls, l ∈ left a label done := fun l hl => hleft ▸ List.mem_append_left _ hl
        refine Or.inl ⟨done ++ ls.map Label.id, partway_append hdone hmem, ?_⟩
        exact patched_moved a.ids ls done fun l hl => (mem_beneath.mp (mem_left.mp (hmem l hl)).1).1
    | inr ih =>
      rw [ih, r.update_final] at sent
      obtain rfl := Except.ok.inj sent
      rw [List.prefix_nil.mp hcut, ih]
      exact Or.inr rfl

theorem renamesSafely : RenamesSafely target name parent a.labels := by
  intro uncut huncut now hnow
  have hnone : Partway a label [] := fun _ hid => absurd hid List.not_mem_nil
  have hstart := r.update_partway hnone
  have hfinal := r.patched_partway hnone
  rw [map_moved_nil] at hstart hfinal
  rw [hstart] at huncut
  obtain rfl := Except.ok.inj huncut
  rw [hfinal]
  cases r.of_cutShort hnow with
  | inl h =>
    obtain ⟨done, hdone, rfl⟩ := h
    exact ⟨_, r.update_partway hdone, r.clashFree_partway hdone, r.patched_partway hdone⟩
  | inr h =>
    refine ⟨[], h ▸ r.update_final, ?_, h⟩
    intro before p after hsplit
    exact absurd hsplit.symm (List.append_ne_nil_of_right_ne_nil before (List.cons_ne_nil p after))

end Renaming

/-! ## When renaming is safe -/

section Safe

variable {a : Account} {target : MailboxId} {name : List Char} {parent : Option MailboxId} {patches : List Patch}
variable {label : Label} {full : List Char}

variable {all : List Label}

theorem renamesSafely_of_nothing (h : update all target name parent = .ok []) : RenamesSafely target name parent all := by
  have hstays : ∀ now, CutShort target name parent all now → now = all := by
    intro now hnow
    induction hnow with
    | start => rfl
    | attempt reached sent hcut ih =>
      rw [ih, h] at sent
      obtain rfl := Except.ok.inj sent
      rw [List.prefix_nil.mp hcut]
      exact ih
  intro uncut huncut now hnow
  rw [h] at huncut
  obtain rfl := Except.ok.inj huncut
  rw [hstays now hnow]
  refine ⟨[], h, ?_, rfl⟩
  intro before p after hsplit
  exact absurd hsplit.symm (List.append_ne_nil_of_right_ne_nil before (List.cons_ne_nil p after))

theorem ids_patched (all : List Label) (patches : List Patch) : (patched all patches).map Label.id = all.map Label.id := by
  induction patches generalizing all with
  | nil => rfl
  | cons p patches ih =>
    show (patched (patch all p) patches).map Label.id = _
    rw [ih]
    unfold patch
    rw [List.map_map]
    apply List.map_congr_left
    intro l _
    show (if l.id = p.id then { l with name := p.name } else l).id = l.id
    split <;> rfl

theorem mem_patched (hids : (all.map Label.id).Nodup) (hlabel : label ∈ all) {l : Label}
    (hl : l ∈ beneath label.name all) :
    ∃ m ∈ patched all ((beneath label.name all ++ [label]).map (toPatch label.name full)),
      m.id = l.id ∧ m.name = newName label.name full l := by
  have hmem : ∀ m ∈ beneath label.name all ++ [label], m ∈ all := by
    intro m hm
    cases List.mem_append.mp hm with
    | inl hm => exact (mem_beneath.mp hm).1
    | inr hm => exact List.mem_singleton.mp hm ▸ hlabel
  have hpatched : patched (all.map (moved label.name full [])) ((beneath label.name all ++ [label]).map (toPatch label.name full)) =
      all.map (moved label.name full ((beneath label.name all ++ [label]).map Label.id)) :=
    patched_moved hids _ [] hmem
  rw [map_moved_nil] at hpatched
  rw [hpatched]
  refine ⟨_, List.mem_map_of_mem (mem_beneath.mp hl).1, moved_id, moved_of_mem ?_⟩
  exact List.mem_map_of_mem (List.mem_append_left _ hl)

variable {above : List Char}

theorem sent_eq (hlabel : userLabel all target = .ok label)
    (habove : parentName all parent = .ok above) (hfull : joined above name = full) (hne : full ≠ label.name)
    (hsent : update all target name parent = .ok patches) :
    patches = (beneath label.name all ++ [label]).map (toPatch label.name full) := by
  rw [update_eq hlabel habove, hfull, if_neg hne] at hsent
  split at hsent
  · exact nomatch hsent
  · rw [← patches_eq]
    exact (Except.ok.inj hsent).symm

variable {ls : List Label}

theorem patched_beneath (a : Account) (hls : ∀ m ∈ ls, m ∈ beneath label.name a.labels) :
    patched a.labels (ls.map (toPatch label.name full)) = a.labels.map (moved label.name full (ls.map Label.id)) := by
  have h : patched (a.labels.map (moved label.name full [])) (ls.map (toPatch label.name full)) =
      a.labels.map (moved label.name full (ls.map Label.id)) :=
    patched_moved a.ids ls [] fun m hm => (mem_beneath.mp (hls m hm)).1
  rw [map_moved_nil] at h
  exact h

theorem label_notMem_beneath (a : Account) (hlabel : label ∈ a.labels)
    (hls : ∀ m ∈ ls, m ∈ beneath label.name a.labels) : label.id ∉ ls.map Label.id := by
  intro hmem
  obtain ⟨m, hm, hid⟩ := List.mem_map.mp hmem
  obtain ⟨hm, rest, hrest⟩ := mem_beneath.mp (hls m hm)
  rw [Renaming.eq_of_id a hm hlabel hid, below_self rfl] at hrest
  exact nomatch hrest

variable {ms : List Label}

theorem newName_ne_of_clashFree (a : Account) (hlabel : label ∈ a.labels) {l : Label}
    (hsplit : beneath label.name a.labels = ls ++ l :: ms)
    (hclash : ClashFree a.labels ((beneath label.name a.labels ++ [label]).map (toPatch label.name full))) :
    newName label.name full l ≠ label.name := by
  have hls : ∀ m ∈ ls, m ∈ beneath label.name a.labels := fun m hm => hsplit ▸ List.mem_append_left _ hm
  have hl : ∀ m ∈ [l], m ∈ beneath label.name a.labels := by
    intro m hm
    rw [List.mem_singleton.mp hm, hsplit]
    exact List.mem_append_right _ List.mem_cons_self
  have hlist : (beneath label.name a.labels ++ [label]).map (toPatch label.name full) =
      ls.map (toPatch label.name full) ++ toPatch label.name full l :: (ms ++ [label]).map (toPatch label.name full) := by
    rw [hsplit, List.append_assoc, List.map_append]
    rfl
  have hunmoved : label ∈ patched a.labels (ls.map (toPatch label.name full)) := by
    rw [patched_beneath a hls]
    exact List.mem_map.mpr ⟨label, hlabel, moved_of_notMem (label_notMem_beneath a hlabel hls)⟩
  have hid : label.id ≠ l.id := fun hid => label_notMem_beneath a hlabel hl (List.mem_singleton.mpr hid)
  exact fun heq => hclash _ _ _ hlist label hunmoved hid heq.symm

/-- Stopped right after a label beneath got a name beneath the old one, the next attempt patches it once more, and its
last name is not the one of the uncut run. -/
theorem newName_leaves_of_retry (a : Account) (hlabel : userLabel a.labels target = .ok label)
    (habove : parentName a.labels parent = .ok above) (hfull : joined above name = full) (hne : full ≠ label.name)
    (houtside : ParentOutside target parent a.labels) {l : Label}
    (hsplit : beneath label.name a.labels = ls ++ l :: ms) {again : List Patch}
    (hagain : update (patched a.labels ((ls ++ [l]).map (toPatch label.name full))) target name parent = .ok again)
    (hfinal : patched (patched a.labels ((ls ++ [l]).map (toPatch label.name full))) again =
      patched a.labels ((beneath label.name a.labels ++ [label]).map (toPatch label.name full))) :
    stripFront (label.name ++ ['/']) (newName label.name full l) = none := by
  by_contra hsome
  obtain ⟨rest, hrest⟩ := Option.ne_none_iff_exists'.mp hsome
  have hlabelMem := (mem_of_userLabel hlabel).1
  have hl : l ∈ beneath label.name a.labels := hsplit ▸ List.mem_append_right _ List.mem_cons_self
  have hbeneath : ∀ m ∈ ls ++ [l], m ∈ beneath label.name a.labels := by
    intro m hm
    rw [hsplit, List.append_cons]
    exact List.mem_append_left ms hm
  have hself := label_notMem_beneath a hlabelMem hbeneath
  have hids : ((patched a.labels ((ls ++ [l]).map (toPatch label.name full))).map Label.id).Nodup := by
    rw [ids_patched]
    exact a.ids
  rw [patched_beneath a hbeneath] at hagain hfinal hids
  -- The label and its parent are found as before.
  have hlabel' : userLabel (a.labels.map (moved label.name full ((ls ++ [l]).map Label.id))) target =
      .ok (moved label.name full ((ls ++ [l]).map Label.id) label) :=
    userLabel_moved hlabel
  rw [moved_of_notMem hself] at hlabel'
  have habove' : parentName (a.labels.map (moved label.name full ((ls ++ [l]).map Label.id))) parent = .ok above := by
    apply parentName_moved habove
    intro id p hid hp hmem
    obtain ⟨m, hm, hmid⟩ := List.mem_map.mp hmem
    obtain ⟨hm, below, hbelow⟩ := mem_beneath.mp (hbeneath m hm)
    rw [Renaming.eq_of_id a hm (mem_of_userLabel hp).1 hmid, (houtside label p hlabel id hid hp).2] at hbelow
    exact nomatch hbelow
  -- And so is the label patched last, under its new name.
  have hbelow : below label.name (moved label.name full ((ls ++ [l]).map Label.id) l) = some rest := by
    unfold below
    rw [moved_of_mem (List.mem_map_of_mem (List.mem_append_right _ List.mem_cons_self))]
    exact hrest
  obtain ⟨m, hm, hmid, hmname⟩ := @mem_patched _ full _ hids (mem_of_userLabel hlabel').1 _
    (mem_beneath.mpr ⟨List.mem_map_of_mem (mem_beneath.mp hl).1, rest, hbelow⟩)
  obtain ⟨m', hm', hmid', hmname'⟩ := @mem_patched _ full _ a.ids hlabelMem _ hl
  rw [sent_eq hlabel' habove' hfull hne hagain] at hfinal
  rw [hfinal] at hm
  rw [moved_id] at hmid
  have hsame : m = m' := by
    apply List.inj_on_of_nodup_map _ hm hm' (hmid.trans hmid'.symm)
    rw [ids_patched]
    exact a.ids
  have hnames : full ++ '/' :: rest = newName label.name full l := by
    rw [← hmname', ← hsame, hmname, newName_of_below hbelow]
  rw [stripFront_eq_some_iff.mp hrest, List.append_assoc] at hnames
  exact hne (List.append_cancel_right hnames)

theorem leaves_of_renamesSafely (a : Account) (hlabel : userLabel a.labels target = .ok label)
    (habove : parentName a.labels parent = .ok above) (hfull : joined above name = full) (hne : full ≠ label.name)
    (hsent : update a.labels target name parent = .ok patches) (houtside : ParentOutside target parent a.labels)
    (hsafe : RenamesSafely target name parent a.labels) {l : Label} (hl : l ∈ beneath label.name a.labels) :
    newName label.name full l ≠ label.name ∧ stripFront (label.name ++ ['/']) (newName label.name full l) = none := by
  obtain ⟨ls, ms, hsplit⟩ := List.append_of_mem hl
  obtain ⟨_, hsent', hclash, -⟩ := hsafe patches hsent a.labels .start
  obtain rfl := Except.ok.inj (hsent.symm.trans hsent')
  obtain rfl := sent_eq hlabel habove hfull hne hsent
  have hcut : (ls ++ [l]).map (toPatch label.name full) <+:
      (beneath label.name a.labels ++ [label]).map (toPatch label.name full) := by
    refine ⟨(ms ++ [label]).map (toPatch label.name full), ?_⟩
    rw [hsplit, ← List.map_append, List.append_assoc, List.append_assoc]
    rfl
  obtain ⟨again, hagain, -, hfinal⟩ := hsafe _ hsent _ (.attempt .start hsent hcut)
  exact ⟨newName_ne_of_clashFree a (mem_of_userLabel hlabel).1 hsplit hclash,
    newName_leaves_of_retry a hlabel habove hfull hne houtside hsplit hagain hfinal⟩

/-- The patches are safe to make, and to make again after a cut, exactly where the new names leave the old name alone. -/
theorem renamesSafely_iff (a : Account) (hsent : update a.labels target name parent = .ok patches)
    (houtside : ParentOutside target parent a.labels) :
    RenamesSafely target name parent a.labels ↔ LeavesOldName target name parent a.labels := by
  obtain ⟨label, above, hlabel, habove⟩ := exists_of_update hsent
  have hupdate := @update_eq _ _ name _ _ hlabel _ habove
  constructor
  · intro hsafe label' above' hlabel' habove'
    obtain rfl := Except.ok.inj (hlabel.symm.trans hlabel')
    obtain rfl := Except.ok.inj (habove.symm.trans habove')
    by_cases hsame : joined above name = label.name
    · exact Or.inl hsame
    · right
      intro p hp
      rw [renames_eq] at hp
      obtain ⟨l, hl, rfl⟩ := List.mem_map.mp hp
      exact leaves_of_renamesSafely a hlabel habove rfl hsame hsent houtside hsafe hl
  · intro hleaves
    by_cases hsame : joined above name = label.name
    · rw [if_pos hsame] at hupdate
      exact renamesSafely_of_nothing hupdate
    · rw [if_neg hsame] at hupdate
      have hfree : taken a.labels ((beneath label.name a.labels ++ [label]).map (toPatch label.name (joined above name))) =
          false := by
        rw [← patches_eq]
        rw [hupdate] at hsent
        split at hsent
        · exact nomatch hsent
        · rename_i hnot
          exact Bool.not_eq_true _ ▸ hnot
      have r : Renaming a target name parent label (joined above name) :=
        { found := hlabel
          inside := ⟨above, habove, rfl⟩
          outside := fun id p hid hp => houtside label p hlabel id hid hp
          changes := hsame
          free := hfree
          leaves := by
            intro l hl
            cases hleaves label above hlabel habove with
            | inl h => exact absurd h hsame
            | inr h =>
              apply h (toPatch label.name (joined above name) l)
              rw [renames_eq]
              exact List.mem_map_of_mem hl }
      exact r.renamesSafely

/-- A label `x/a` that holds `x/a/a`, under a parent that has no label of its own. -/
def nested : Account where
  labels := [⟨"A", "x/a".toList, true⟩, ⟨"B", "x/a/a".toList, true⟩]
  ids := by decide
  names := by decide

/-- Made the top-level label `x`, it would have the label it holds take its own name first. -/
theorem rename_clash : ¬ ∀ (a : Account) (target : MailboxId) (name : List Char) (parent : Option MailboxId)
    (patches : List Patch), '/' ∉ name → update a.labels target name parent = .ok patches →
      ParentOutside target parent a.labels → RenamesSafely target name parent a.labels := by
  intro h
  have hsent : update nested.labels "A" ['x'] none = .ok [⟨"B", "x/a".toList⟩, ⟨"A", "x".toList⟩] := rfl
  have hsafe := h nested "A" ['x'] none _ (by decide) hsent (fun _ _ _ _ hid => nomatch hid)
  obtain ⟨patches, hsent', hclash, -⟩ := hsafe _ hsent nested.labels .start
  obtain rfl := Except.ok.inj (hsent.symm.trans hsent')
  exact hclash [] _ _ rfl ⟨"A", "x/a".toList, true⟩ List.mem_cons_self (by decide) rfl

/-- Renamed to `y`, it is renamed safely. -/
theorem renamesSafely_nested : RenamesSafely "A" ['y'] none nested.labels := by
  have hsent : update nested.labels "A" ['y'] none = .ok [⟨"B", "y/a".toList⟩, ⟨"A", "y".toList⟩] := rfl
  have hiff := renamesSafely_iff nested hsent (fun _ _ _ _ hid => nomatch hid)
  refine hiff.mpr ?_
  intro label above hlabel habove
  have hx : userLabel nested.labels "A" = .ok ⟨"A", "x/a".toList, true⟩ := rfl
  obtain rfl := Except.ok.inj (hx.symm.trans hlabel)
  obtain rfl : [] = above := Except.ok.inj habove
  right
  decide

end Safe

end Google
end SyncEngine
