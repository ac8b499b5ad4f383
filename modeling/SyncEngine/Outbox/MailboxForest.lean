import SyncEngine.Outbox.MailboxPlan

/-!
# The folder tree under a planned edit

A list of folders is a forest where every parent is in it and no folder lies beneath itself.  What a plan sends
leaves a forest, and no two folders of one name in one place.
-/

namespace SyncEngine
namespace Outbox

open Relation

def InsideOf (current : List Mailbox) (a b : MailboxId) : Prop := ∃ m ∈ current, m.id = a ∧ m.parent = some b

structure Forest (current : List Mailbox) : Prop where
  ids_nodup : (current.map Mailbox.id).Nodup
  parents : ∀ m ∈ current, ∀ p, m.parent = some p → ∃ n ∈ current, n.id = p
  acyclic : Climb.Acyclic (InsideOf current)

def SiblingNamesUnique (current : List Mailbox) : Prop :=
  ∀ m ∈ current, ∀ n ∈ current, m.parent = n.parent → m.name = n.name → m.id = n.id

instance (current : List Mailbox) : Decidable (SiblingNamesUnique current) :=
  inferInstanceAs (Decidable (∀ m ∈ current, ∀ n ∈ current, _ → _ → _))

/-- The list with one folder renamed and moved. -/
def placed (current : List Mailbox) (target : MailboxId) (name : List Char) (parent : Option MailboxId) :
    List Mailbox :=
  current.map fun m => if m.id = target then { m with name := name, parent := parent } else m

def without (current : List Mailbox) (target : MailboxId) : List Mailbox :=
  current.filter fun m => !within current m.id target

/-- What a server may make of an edit.  A created folder gets an id of its own; a folder that is trashed is moved
into Trash or, where Trash holds no folders, removed. -/
inductive Applied (current : List Mailbox) : MailboxEdit → List Mailbox → Prop
  | create (fresh : MailboxId) (name : List Char) (parent : Option MailboxId)
      (hfresh : ∀ m ∈ current, m.id ≠ fresh) :
      Applied current (.create name parent) (current ++ [⟨fresh, name, parent, none⟩])
  | update (target : MailboxId) (name : List Char) (parent : Option MailboxId) :
      Applied current (.update target name parent) (placed current target name parent)
  | trashMoved (target trash : MailboxId) (name : List Char) :
      Applied current (.trash target trash name) (placed current target name (some trash))
  | trashRemoved (target trash : MailboxId) (name : List Char) :
      Applied current (.trash target trash name) (without current target)
  | delete (target : MailboxId) : Applied current (.delete target) (without current target)

/-! ## Finding folders -/

section Find

variable {current : List Mailbox} {id folder ancestor : MailboxId} {m : Mailbox}

theorem mem_of_find (h : find current id = some m) : m ∈ current ∧ m.id = id :=
  ⟨List.mem_of_find?_eq_some h, by simpa using List.find?_some h⟩

theorem find_isSome (h : ¬ (find current id).isNone = true) : ∃ m ∈ current, m.id = id := by
  cases hfind : find current id with
  | none =>
    rw [hfind] at h
    exact absurd rfl h
  | some m => exact ⟨m, mem_of_find hfind⟩

theorem eq_of_id (h : Forest current) {n : Mailbox} (hm : m ∈ current) (hn : n ∈ current) (hid : m.id = n.id) : m = n :=
  List.inj_on_of_nodup_map h.ids_nodup hm hn hid

theorem parentOf_iff (h : Forest current) {a b : MailboxId} : parentOf current a = some b ↔ InsideOf current a b := by
  constructor
  · intro hparent
    obtain ⟨m, hfind, hup⟩ := Option.bind_eq_some_iff.mp hparent
    obtain ⟨hm, hid⟩ := mem_of_find hfind
    exact ⟨m, hm, hid, hup⟩
  · intro ⟨m, hm, hid, hup⟩
    cases hfind : find current a with
    | none => exact absurd (List.find?_eq_none.mp hfind m hm) (by simp [hid])
    | some n =>
      obtain ⟨hn, hnid⟩ := mem_of_find hfind
      have hsame := eq_of_id h hn hm (hnid.trans hid.symm)
      unfold parentOf
      rw [hfind, hsame]
      exact hup

theorem within_iff : within current folder ancestor = true ↔
    ReflTransGen (fun a b => parentOf current a = some b) folder ancestor := by
  have hsupport : ∀ a b, parentOf current a = some b → a ∈ current.map Mailbox.id := by
    intro a b hparent
    obtain ⟨m, hfind, -⟩ := Option.bind_eq_some_iff.mp hparent
    obtain ⟨hm, hid⟩ := mem_of_find hfind
    exact List.mem_map.mpr ⟨m, hm, hid⟩
  have hclimbs := @Climb.climbs_iff_reflTransGen _ (parentOf current) folder ancestor _ _ hsupport
  rw [List.length_map] at hclimbs
  exact hclimbs

theorem within_iff_of_forest (h : Forest current) :
    within current folder ancestor = true ↔ ReflTransGen (InsideOf current) folder ancestor := by
  have hlink : (fun a b => parentOf current a = some b) = InsideOf current := by
    funext a b
    exact propext (parentOf_iff h)
  rw [within_iff, hlink]

end Find

/-! ## A free name -/

section Free

variable {table : CaseTable} {current : List Mailbox} {parent : MailboxId} {name chosen : List Char}

theorem not_taken_of_freeName (h : freeName table current parent name = some chosen) :
    taken table current parent chosen = false := by
  unfold freeName at h
  split_ifs at h with hfree
  · cases h
    simpa using hfree
  · simpa using List.find?_some h

theorem name_ne_of_not_taken (h : taken table current parent chosen = false) {m : Mailbox} (hm : m ∈ current)
    (hparent : m.parent = some parent) : m.name ≠ chosen := by
  rintro rfl
  exact absurd (List.any_eq_false.mp h m hm) (by simp [hparent])

theorem freeName_isSome : (freeName table current parent name).isSome := by
  unfold freeName
  split_ifs
  · rfl
  · by_contra hnone
    have hall := List.find?_eq_none.mp (Option.not_isSome_iff_eq_none.mp hnone)
    have htaken : ∀ n ∈ List.range' 2 (current.length + 1),
        table.toLowercase (name ++ ' ' :: decimal n) ∈ current.map fun m => table.toLowercase m.name := by
      intro n hn
      have hcandidate := hall _ (List.mem_map.mpr ⟨n, hn, rfl⟩)
      simp only [Bool.not_eq_true', Bool.not_eq_false] at hcandidate
      obtain ⟨m, hm, hsame⟩ := List.any_eq_true.mp hcandidate
      exact List.mem_map.mpr ⟨m, hm, (of_decide_eq_true hsame).2⟩
    have hnodup : ((List.range' 2 (current.length + 1)).map fun n =>
        table.toLowercase (name ++ ' ' :: decimal n)).Nodup :=
      List.Nodup.map (fun _ _ heq => CaseTable.toLowercase_numbered heq) List.nodup_range'
    have hsubset : ((List.range' 2 (current.length + 1)).map fun n =>
        table.toLowercase (name ++ ' ' :: decimal n)) ⊆ current.map fun m => table.toLowercase m.name := by
      intro s hs
      obtain ⟨n, hn, rfl⟩ := List.mem_map.mp hs
      exact htaken n hn
    have hlength := (hnodup.subperm hsubset).length_le
    rw [List.length_map, List.length_range', List.length_map] at hlength
    omega

end Free

/-! ## Edited lists -/

section Edited

variable {current : List Mailbox} {target fresh : MailboxId} {name : List Char} {parent : Option MailboxId}
  {m : Mailbox}

theorem mem_placed : m ∈ placed current target name parent ↔
    (m ∈ current ∧ m.id ≠ target) ∨ ∃ n ∈ current, n.id = target ∧ m = { n with name := name, parent := parent } := by
  unfold placed
  rw [List.mem_map]
  constructor
  · intro ⟨n, hn, heq⟩
    by_cases hid : n.id = target
    · rw [if_pos hid] at heq
      exact .inr ⟨n, hn, hid, heq.symm⟩
    · rw [if_neg hid] at heq
      subst heq
      exact .inl ⟨hn, hid⟩
  · rintro (⟨hm, hid⟩ | ⟨n, hn, hid, rfl⟩)
    · exact ⟨m, hm, if_neg hid⟩
    · exact ⟨n, hn, if_pos hid⟩

theorem map_id_placed : (placed current target name parent).map Mailbox.id = current.map Mailbox.id := by
  unfold placed
  rw [List.map_map]
  refine List.map_congr_left fun m _ => ?_
  show Mailbox.id (if _ then _ else _) = _
  split_ifs <;> rfl

theorem mem_without : m ∈ without current target ↔ m ∈ current ∧ within current m.id target = false := by
  unfold without
  rw [List.mem_filter, Bool.not_eq_true']

theorem forest_created (h : Forest current) (hfresh : ∀ m ∈ current, m.id ≠ fresh)
    (hparent : ∀ p, parent = some p → ∃ n ∈ current, n.id = p) :
    Forest (current ++ [⟨fresh, name, parent, none⟩]) where
  ids_nodup := by
    rw [List.map_append, List.nodup_append]
    refine ⟨h.ids_nodup, List.nodup_singleton _, fun a ha b hb hab => ?_⟩
    obtain ⟨m, hm, rfl⟩ := List.mem_map.mp ha
    exact hfresh m hm (hab.trans (List.mem_singleton.mp hb))
  parents := by
    intro m hm p hp
    rcases List.mem_append.mp hm with hold | hnew
    · obtain ⟨n, hn, hid⟩ := h.parents m hold p hp
      exact ⟨n, List.mem_append_left _ hn, hid⟩
    · rw [List.mem_singleton.mp hnew] at hp
      obtain ⟨n, hn, hid⟩ := hparent p hp
      exact ⟨n, List.mem_append_left _ hn, hid⟩
  acyclic := by
    refine @Climb.Acyclic.relink _ _ _ fresh h.acyclic ?_ ?_
    · rintro a b ⟨m, hm, hid, hup⟩ hne
      rcases List.mem_append.mp hm with hold | hnew
      · exact ⟨m, hold, hid, hup⟩
      · rw [List.mem_singleton.mp hnew] at hid
        exact absurd hid.symm hne
    · rintro p ⟨m, hm, hid, hup⟩ hway
      rcases List.mem_append.mp hm with hold | hnew
      · exact hfresh m hold hid
      · rw [List.mem_singleton.mp hnew] at hup
        obtain ⟨n, hn, rfl⟩ := hparent p hup
        -- nothing is inside a folder that is not there yet
        rcases hway.cases_tail with hsame | ⟨x, -, k, hk, -, hkup⟩
        · exact hfresh n hn hsame.symm
        · obtain ⟨l, hl, hlid⟩ := h.parents k hk fresh hkup
          exact hfresh l hl hlid

theorem forest_placed (h : Forest current) (hparent : ∀ p, parent = some p → ∃ n ∈ current, n.id = p)
    (hbeneath : ∀ p, parent = some p → ¬ ReflTransGen (InsideOf current) p target) :
    Forest (placed current target name parent) where
  ids_nodup := by
    rw [map_id_placed]
    exact h.ids_nodup
  parents := by
    intro m hm p hp
    have hkept : ∃ n ∈ current, n.id = p := by
      rcases mem_placed.mp hm with ⟨hold, -⟩ | ⟨n, hn, -, rfl⟩
      · exact h.parents m hold p hp
      · exact hparent p hp
    obtain ⟨n, hn, hid⟩ := hkept
    have hmem : n.id ∈ (placed current target name parent).map Mailbox.id := by
      rw [map_id_placed]
      exact List.mem_map_of_mem hn
    obtain ⟨n', hn', hid'⟩ := List.mem_map.mp hmem
    exact ⟨n', hn', hid'.trans hid⟩
  acyclic := by
    refine @Climb.Acyclic.relink _ _ _ target h.acyclic ?_ ?_
    · rintro a b ⟨m, hm, rfl, hup⟩ hne
      rcases mem_placed.mp hm with ⟨hold, -⟩ | ⟨n, -, hid, rfl⟩
      · exact ⟨m, hold, rfl, hup⟩
      · exact absurd hid hne
    · rintro p ⟨m, hm, hid, hup⟩
      rcases mem_placed.mp hm with ⟨-, hne⟩ | ⟨n, -, -, rfl⟩
      · exact absurd hid hne
      · exact hbeneath p hup

theorem forest_without (h : Forest current) : Forest (without current target) where
  ids_nodup := h.ids_nodup.sublist (List.filter_sublist.map Mailbox.id)
  parents := by
    intro m hm p hp
    obtain ⟨hkept, hoff⟩ := mem_without.mp hm
    obtain ⟨n, hn, hid⟩ := h.parents m hkept p hp
    refine ⟨n, mem_without.mpr ⟨hn, ?_⟩, hid⟩
    -- what is beneath the folder takes along what is inside it
    by_contra hbeneath
    have hup := (within_iff_of_forest h).mp (by simpa using hbeneath)
    rw [hid] at hup
    have hway : within current m.id target = true := (within_iff_of_forest h).mpr (.head ⟨m, hkept, rfl, hp⟩ hup)
    rw [hway] at hoff
    cases hoff
  acyclic := h.acyclic.mono fun a b ⟨m, hm, hid, hup⟩ => ⟨m, (mem_without.mp hm).1, hid, hup⟩

theorem names_created (h : SiblingNamesUnique current) (hfree : ∀ m ∈ current, m.parent = parent → m.name ≠ name) :
    SiblingNamesUnique (current ++ [⟨fresh, name, parent, none⟩]) := by
  intro m hm n hn hparent hname
  rcases List.mem_append.mp hm with hm | hm
  · rcases List.mem_append.mp hn with hn | hn
    · exact h m hm n hn hparent hname
    · rw [List.mem_singleton.mp hn] at hparent hname
      exact absurd hname (hfree m hm hparent)
  · rcases List.mem_append.mp hn with hn | hn
    · rw [List.mem_singleton.mp hm] at hparent hname
      exact absurd hname.symm (hfree n hn hparent.symm)
    · rw [List.mem_singleton.mp hm, List.mem_singleton.mp hn]

theorem names_placed (h : SiblingNamesUnique current)
    (hfree : ∀ m ∈ current, m.id ≠ target → m.parent = parent → m.name ≠ name) :
    SiblingNamesUnique (placed current target name parent) := by
  intro m hm n hn hparent hname
  rcases mem_placed.mp hm with ⟨hm, hmid⟩ | ⟨m, hm, hmid, rfl⟩
  · rcases mem_placed.mp hn with ⟨hn, -⟩ | ⟨n, hn, hnid, rfl⟩
    · exact h m hm n hn hparent hname
    · exact absurd hname (hfree m hm hmid hparent)
  · rcases mem_placed.mp hn with ⟨hn, hnid⟩ | ⟨n, hn, hnid, rfl⟩
    · exact absurd hname.symm (hfree n hn hnid hparent.symm)
    · exact hmid.trans hnid.symm

theorem names_without (h : SiblingNamesUnique current) : SiblingNamesUnique (without current target) :=
  fun m hm n hn => h m (mem_without.mp hm).1 n (mem_without.mp hn).1

end Edited

/-! ## What a plan sends -/

section Sent

variable {table : CaseTable} {current : List Mailbox} {target trash : MailboxId} {seen : MailboxPlace}
  {name : List Char} {parent : Option MailboxId} {edit : MailboxEdit}

theorem name_ne_of_siblingNamed {except : Option MailboxId} (h : siblingNamed current parent name except = none)
    {m : Mailbox} (hm : m ∈ current) (hid : some m.id ≠ except) (hparent : m.parent = parent) : m.name ≠ name := by
  intro hname
  exact absurd (List.find?_eq_none.mp h m hm) (by simp [hparent, hname, hid])

theorem found_of_not_any (h : ¬ (parent.any fun p => (find current p).isNone) = true) :
    ∀ p, parent = some p → ∃ n ∈ current, n.id = p := by
  rintro p rfl
  exact find_isSome h

theorem planCreate_send (h : planCreate current name parent = .ok (.send edit)) :
    edit = .create name parent ∧ (∀ p, parent = some p → ∃ n ∈ current, n.id = p) ∧
      ∀ m ∈ current, m.parent = parent → m.name ≠ name := by
  unfold planCreate at h
  split_ifs at h with hgone
  cases hsibling : siblingNamed current parent name none with
  | some existing =>
    rw [hsibling] at h
    cases h
  | none =>
    rw [hsibling] at h
    cases h
    exact ⟨rfl, found_of_not_any hgone, fun m hm => name_ne_of_siblingNamed hsibling hm (by simp)⟩

theorem planUpdate_send (h : planUpdate current target seen name parent = .ok (.send edit)) :
    edit = .update target name parent ∧ (∀ p, parent = some p → ∃ n ∈ current, n.id = p) ∧
      (∀ p, parent = some p → ¬ within current p target = true) ∧
      ∀ m ∈ current, m.id ≠ target → m.parent = parent → m.name ≠ name := by
  unfold planUpdate at h
  cases hfolder : unchanged (find current target) seen with
  | error e =>
    rw [hfolder] at h
    cases h
  | ok folder =>
    rw [hfolder] at h
    dsimp only [bind, Except.bind] at h
    split_ifs at h with hsame hgone hbeneath hsibling
    · cases h
    · cases h
      refine ⟨rfl, found_of_not_any hgone, ?_, fun m hm hid => ?_⟩
      · rintro p rfl
        exact hbeneath
      · exact name_ne_of_siblingNamed (Option.not_isSome_iff_eq_none.mp hsibling) hm (by simpa using hid)

theorem planTrash_send (h : planTrash table current target seen trash = some (.ok (.send edit))) :
    ∃ chosen, edit = .trash target trash chosen ∧ (∃ n ∈ current, n.id = trash) ∧
      within current trash target = false ∧ taken table current trash chosen = false := by
  unfold planTrash at h
  cases hfolder : unchanged (find current target) seen with
  | error e =>
    rw [hfolder] at h
    cases h
  | ok folder =>
    rw [hfolder] at h
    simp only at h
    split_ifs at h with hgone hbeneath
    · cases h
    · cases h
    · obtain ⟨chosen, hchosen, heq⟩ := Option.map_eq_some_iff.mp h
      cases heq
      exact ⟨chosen, rfl, find_isSome hgone, by simpa using fun hw => hbeneath (.inr hw), not_taken_of_freeName hchosen⟩

theorem planDelete_send (h : planDelete current target = .ok (.send edit)) : edit = .delete target := by
  unfold planDelete at h
  cases hfind : find current target with
  | none =>
    rw [hfind] at h
    cases h
  | some folder =>
    rw [hfind] at h
    simp only at h
    split_ifs at h
    cases h
    rfl

end Sent

theorem plan_isSome (table : CaseTable) (change : MailboxChange) (current : List Mailbox) :
    (plan table change current).isSome := by
  cases change with
  | create name parent => rfl
  | update target seen name parent => rfl
  | delete target => rfl
  | trash target seen trash =>
    show (planTrash table current target seen trash).isSome
    unfold planTrash
    cases unchanged (find current target) seen with
    | error e => rfl
    | ok folder =>
      simp only
      split_ifs
      · rfl
      · rfl
      · rw [Option.isSome_map]
        exact freeName_isSome

/-- A plan is always made, what it sends keeps a forest a forest with the names of siblings apart, and the walk it
looks for a folder's ancestors with finds them on every list. -/
theorem plan_keeps_forest (table : CaseTable) (change : MailboxChange) (current : List Mailbox) :
    (plan table change current).isSome ∧
    (Forest current → SiblingNamesUnique current → ∀ edit, plan table change current = some (.ok (.send edit)) →
      ∀ after, Applied current edit after → Forest after ∧ SiblingNamesUnique after) ∧
    ∀ folder ancestor, within current folder ancestor = true ↔
      ReflTransGen (fun a b => parentOf current a = some b) folder ancestor := by
  refine ⟨plan_isSome table change current, ?_, fun _ _ => within_iff⟩
  intro h hnames edit hplan after happlied
  cases change with
  | create name parent =>
    obtain ⟨rfl, hparent, hfree⟩ := planCreate_send (Option.some.inj hplan)
    cases happlied with
    | create fresh _ _ hfresh => exact ⟨forest_created h hfresh hparent, names_created hnames hfree⟩
  | update target seen name parent =>
    obtain ⟨rfl, hparent, hbeneath, hfree⟩ := planUpdate_send (Option.some.inj hplan)
    cases happlied with
    | update =>
      refine ⟨forest_placed h hparent fun p hp hway => hbeneath p hp ?_, names_placed hnames hfree⟩
      exact (within_iff_of_forest h).mpr hway
  | trash target seen trash =>
    obtain ⟨chosen, rfl, htrash, hbeneath, hfree⟩ := planTrash_send hplan
    cases happlied with
    | trashMoved =>
      refine ⟨forest_placed h ?_ ?_, names_placed hnames fun m hm _ hparent => name_ne_of_not_taken hfree hm hparent⟩
      · rintro p hp
        rw [← Option.some.inj hp]
        exact htrash
      · rintro p hp hway
        rw [← Option.some.inj hp] at hway
        rw [(within_iff_of_forest h).mpr hway] at hbeneath
        cases hbeneath
    | trashRemoved => exact ⟨forest_without h, names_without hnames⟩
  | delete target =>
    obtain rfl := planDelete_send (Option.some.inj hplan)
    cases happlied with
    | delete => exact ⟨forest_without h, names_without hnames⟩

namespace Sample

def table : CaseTable := ⟨fun c => [c.toLower], Char.isAlpha, fun _ => false, fun _ _ => rfl⟩

/-- The Trash already holds a folder of the name. -/
def folders : List Mailbox :=
  [⟨"inbox", "INBOX".toList, none, some .inbox⟩, ⟨"trash", "Trash".toList, none, some .trash⟩,
    ⟨"work", "Work".toList, none, none⟩, ⟨"old", "work".toList, some "trash", none⟩]

theorem insideOf_folders {a b : MailboxId} (h : InsideOf folders a b) : a = "old" ∧ b = "trash" := by
  obtain ⟨m, hm, rfl, hup⟩ := h
  simp only [folders, List.mem_cons, List.not_mem_nil, or_false] at hm
  rcases hm with rfl | rfl | rfl | rfl
  · cases hup
  · cases hup
  · cases hup
  · exact ⟨rfl, (Option.some.inj hup).symm⟩

theorem forest_folders : Forest folders where
  ids_nodup := by decide
  parents := by decide
  acyclic := by
    intro a hcycle
    obtain ⟨b, hfirst, -⟩ := TransGen.head'_iff.mp hcycle
    obtain ⟨c, -, hlast⟩ := TransGen.tail'_iff.mp hcycle
    exact absurd ((insideOf_folders hfirst).1.symm.trans (insideOf_folders hlast).2) (by decide)

end Sample

open Sample in
/-- The folder goes into Trash under the next free name. -/
theorem trashed_folder_keeps_forest : Forest (placed folders "work" "Work 2".toList (some "trash")) ∧
      SiblingNamesUnique (placed folders "work" "Work 2".toList (some "trash")) :=
  (plan_keeps_forest table (.trash "work" ⟨"Work".toList, none⟩ "trash") folders).2.1 forest_folders (by decide)
    (.trash "work" "trash" "Work 2".toList) (by decide) _ (.trashMoved _ _ _)

end Outbox
end SyncEngine
