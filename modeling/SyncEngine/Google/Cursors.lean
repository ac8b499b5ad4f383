import SyncEngine.Imap.Fetch

/-!
# Where a Gmail sync stands

A pass over the API and one over IMAP each write a cursor into the same scope.  A history id on its own is a cursor
of a pass that is done, and every other form starts with a word of its own, so that no cursor is read as another's.
-/

namespace SyncEngine
namespace Google

open Imap (MailboxCursor MailboxName messageKey parseMessageKey notMem_decimal)

/-! ## The API's cursor -/

inductive GmailCursor
  /-- Synced as of a history id. -/
  | delta (history : String)
  /-- Fetching a page at a time, and going on from `page`. -/
  | backfill (history : String) (page : Option String)
  /-- Every page fetched, and the ids to be listed. -/
  | reconcile (history : String)
deriving DecidableEq, Repr

namespace GmailCursor

/-- A run of digits, as Gmail writes one. -/
def historyId (raw : List Char) : Option String :=
  if raw ≠ [] ∧ raw.all Char.isDigit then some (String.ofList raw) else none

def read (state : SyncState) : Option GmailCursor :=
  match stripFront "backfill;h=".toList state.toList with
  | some rest => do
    let (history, page) ← splitAtFirst ";p=".toList rest
    return .backfill (← historyId history) (if page = [] then none else some (String.ofList page))
  | none =>
    match stripFront "reconcile;h=".toList state.toList with
    | some history => (historyId history).map .reconcile
    | none => (historyId state.toList).map .delta

def state : GmailCursor → SyncState
  | .delta history => history
  | .backfill history page =>
    let page := page.getD ""
    s!"backfill;h={history};p={page}"
  | .reconcile history => s!"reconcile;h={history}"

def history : GmailCursor → String
  | .delta history => history
  | .backfill history _ => history
  | .reconcile history => history

/-- The history id is one, and a page token is not empty. -/
structure Written (c : GmailCursor) : Prop where
  history : c.history.toList ≠ [] ∧ IsDigits c.history.toList
  page : ∀ h p, c = .backfill h (some p) → p ≠ ""

end GmailCursor

/-! ## The cursor of an IMAP-read sync -/

/-- One folder's counters. -/
structure FolderMark where
  uidValidity : Nat
  uidNext : Nat
  highestModseq : Nat
  exists_ : Nat
deriving DecidableEq, Repr

namespace FolderMark

def text (m : FolderMark) : List Char :=
  decimal m.uidValidity ++ '.' :: (decimal m.uidNext ++ '.' :: (decimal m.highestModseq ++ '.' :: decimal m.exists_))

def read (value : List Char) : Option FolderMark :=
  match value.splitOn '.' with
  | [validity, next, modseq, exists_] => do
    return ⟨← parseUnsigned 32 validity, ← parseUnsigned 32 next, ← parseUnsigned 64 modseq, ← parseUnsigned 32 exists_⟩
  | _ => none

structure InRange (m : FolderMark) : Prop where
  uidValidity : m.uidValidity < 2 ^ 32
  uidNext : m.uidNext < 2 ^ 32
  highestModseq : m.highestModseq < 2 ^ 64
  exists_ : m.exists_ < 2 ^ 32

end FolderMark

/-- The counters of All Mail, Spam and Trash, where the account shows them. -/
structure ImapCursor where
  all : Option FolderMark
  spam : Option FolderMark
  trash : Option FolderMark
deriving DecidableEq, Repr

namespace ImapCursor

def slotText (letter : Char) : Option FolderMark → List Char
  | some m => letter :: '=' :: m.text
  | none => [letter, '=', '-']

def readSlot (letter : Char) (part : List Char) : Option (Option FolderMark) := do
  let value ← stripFront [letter, '='] part
  if value = ['-'] then return none
  else (FolderMark.read value).map some

/-- What follows the third part is not looked at. -/
def read (state : SyncState) : Option ImapCursor := do
  let rest ← stripFront "imap;".toList state.toList
  match rest.splitOn ';' with
  | a :: s :: t :: _ => return ⟨← readSlot 'a' a, ← readSlot 's' s, ← readSlot 't' t⟩
  | _ => none

def state (c : ImapCursor) : SyncState :=
  String.ofList ("imap;".toList ++ (slotText 'a' c.all ++ ';' :: (slotText 's' c.spam ++ ';' :: slotText 't' c.trash)))

structure InRange (c : ImapCursor) : Prop where
  all : ∀ m ∈ c.all, m.InRange
  spam : ∀ m ∈ c.spam, m.InRange
  trash : ∀ m ∈ c.trash, m.InRange

end ImapCursor

/-! ## Read back as written -/

namespace GmailCursor

variable {raw : List Char} {id : String}

theorem historyId_eq_some_iff : historyId raw = some id ↔ (raw ≠ [] ∧ IsDigits raw) ∧ String.ofList raw = id := by
  have hall : raw.all Char.isDigit = true ↔ IsDigits raw := List.all_eq_true
  unfold historyId
  constructor
  · intro h
    split at h
    · rename_i hdigits
      exact ⟨⟨hdigits.1, hall.mp hdigits.2⟩, Option.some.inj h⟩
    · exact nomatch h
  · intro h
    rw [if_pos ⟨h.1.1, hall.mpr h.1.2⟩, h.2]

theorem historyId_toList (h : id.toList ≠ [] ∧ IsDigits id.toList) : historyId id.toList = some id :=
  historyId_eq_some_iff.mpr ⟨h, String.ofList_toList⟩

variable {c : Char}

theorem historyId_eq_none (hc : c ∈ raw) (h : c.isDigit = false) : historyId raw = none := by
  unfold historyId
  refine if_neg fun hdigits => ?_
  have hdigit := List.all_eq_true.mp hdigits.2 c hc
  rw [h] at hdigit
  exact Bool.noConfusion hdigit

theorem stripFront_digits {rest : List Char} (hc : c.isDigit = false) (h : IsDigits raw) :
    stripFront (c :: rest) raw = none := by
  apply stripFront_eq_none_of_notMem
  intro hmem
  have hdigit := h c hmem
  rw [hc] at hdigit
  exact Bool.noConfusion hdigit

theorem state_backfill (history : String) (page : Option String) : (state (.backfill history page)).toList =
    "backfill;h=".toList ++ (history.toList ++ ";p=".toList ++ (page.getD "").toList) := by
  show ("backfill;h=" ++ history ++ ";p=" ++ page.getD "" : String).toList = _
  rw [String.toList_append, String.toList_append, String.toList_append]
  simp only [List.append_assoc]

theorem state_reconcile (history : String) : (state (.reconcile history)).toList =
    "reconcile;h=".toList ++ history.toList := by
  show ("reconcile;h=" ++ history : String).toList = _
  rw [String.toList_append]

theorem read_state {c : GmailCursor} (h : c.Written) : read c.state = some c := by
  obtain ⟨hhistory, hpage⟩ := h
  unfold read
  cases c with
  | delta history =>
    have hid : historyId history.toList = some history := historyId_toList hhistory
    have hdigits : IsDigits history.toList := hhistory.2
    rw [show (state (.delta history)) = history from rfl,
      show "backfill;h=".toList = 'b' :: "ackfill;h=".toList from rfl, stripFront_digits (by decide) hdigits,
      show "reconcile;h=".toList = 'r' :: "econcile;h=".toList from rfl, stripFront_digits (by decide) hdigits]
    show (historyId history.toList).map GmailCursor.delta = _
    rw [hid]
    rfl
  | backfill history page =>
    have hid : historyId history.toList = some history := historyId_toList hhistory
    have hsplit : splitAtFirst ";p=".toList (history.toList ++ ";p=".toList ++ (page.getD "").toList) =
        some (history.toList, (page.getD "").toList) := by
      apply splitAtFirst_append
      intro hmem
      exact absurd (hhistory.2 _ hmem) (by decide)
    rw [state_backfill, stripFront_eq_some_iff.mpr rfl]
    simp only [Option.bind_eq_bind, hsplit, Option.bind_some, hid, Option.pure_def]
    cases page with
    | none => rfl
    | some page =>
      have hne : page.toList ≠ [] := fun hnil => hpage _ _ rfl (String.toList_eq_nil_iff.mp hnil)
      show some (GmailCursor.backfill history (if page.toList = [] then none else some (String.ofList page.toList))) = _
      rw [if_neg hne, String.ofList_toList]
  | reconcile history =>
    have hid : historyId history.toList = some history := historyId_toList hhistory
    have hnone : stripFront "backfill;h=".toList ("reconcile;h=".toList ++ history.toList) = none := stripFront_ne (by decide)
    rw [state_reconcile, hnone, stripFront_eq_some_iff.mpr rfl]
    show (historyId history.toList).map GmailCursor.reconcile = _
    rw [hid]
    rfl

end GmailCursor

variable {c : Char}

theorem splitOn_decimal (hc : c.isDigit = false) (n : Nat) (rest : List Char) :
    (decimal n ++ c :: rest).splitOn c = decimal n :: rest.splitOn c :=
  List.splitOn_append_cons_self_of_not_mem (notMem_decimal hc n) rest

theorem splitOn_last {text : List Char} (h : c ∉ text) : text.splitOn c = [text] := List.splitOn_eq_singleton h

namespace FolderMark

theorem read_text {m : FolderMark} (h : m.InRange) : read m.text = some m := by
  unfold read text
  rw [splitOn_decimal (by decide), splitOn_decimal (by decide), splitOn_decimal (by decide),
    splitOn_last (notMem_decimal (by decide) _)]
  simp only [parseUnsigned_decimal h.uidValidity, parseUnsigned_decimal h.uidNext, parseUnsigned_decimal h.highestModseq,
    parseUnsigned_decimal h.exists_, Option.bind_eq_bind, Option.bind_some, Option.pure_def]

theorem notMem_text {c : Char} (hdigit : c.isDigit = false) (hdot : c ≠ '.') (m : FolderMark) : c ∉ m.text := by
  have hno := notMem_decimal hdigit
  unfold text
  simp [hno, hdot]

end FolderMark

namespace ImapCursor

variable {letter : Char} {mark : Option FolderMark}

theorem notMem_slotText (h : ';' ≠ letter) : ';' ∉ slotText letter mark := by
  cases mark with
  | none =>
    show ';' ∉ [letter, '=', '-']
    simp [h]
  | some m =>
    have hno := @FolderMark.notMem_text ';' (by decide) (by decide) m
    show ';' ∉ letter :: '=' :: m.text
    simp [h, hno]

theorem readSlot_slotText (h : ∀ m ∈ mark, m.InRange) : readSlot letter (slotText letter mark) = some mark := by
  unfold readSlot
  cases mark with
  | none =>
    rw [show stripFront [letter, '='] (slotText letter none) = some ['-'] from stripFront_eq_some_iff.mpr rfl]
    rfl
  | some m =>
    have hne : m.text ≠ ['-'] := by
      intro heq
      have hno := @FolderMark.notMem_text '-' (by decide) (by decide) m
      rw [heq] at hno
      exact hno List.mem_cons_self
    rw [show stripFront [letter, '='] (slotText letter (some m)) = some m.text from stripFront_eq_some_iff.mpr rfl]
    show (if m.text = ['-'] then some none else (FolderMark.read m.text).map some) = _
    rw [if_neg hne, FolderMark.read_text (h m rfl)]
    rfl

theorem state_toList (c : ImapCursor) : c.state.toList =
    "imap;".toList ++ (slotText 'a' c.all ++ ';' :: (slotText 's' c.spam ++ ';' :: slotText 't' c.trash)) :=
  String.toList_ofList

theorem read_state {c : ImapCursor} (h : c.InRange) : read c.state = some c := by
  unfold read
  rw [state_toList, stripFront_eq_some_iff.mpr rfl]
  show (match (slotText 'a' c.all ++ ';' :: (slotText 's' c.spam ++ ';' :: slotText 't' c.trash)).splitOn ';' with
    | a :: s :: t :: _ => do return (⟨← readSlot 'a' a, ← readSlot 's' s, ← readSlot 't' t⟩ : ImapCursor)
    | _ => none) = some c
  rw [List.splitOn_append_cons_self_of_not_mem (notMem_slotText (by decide)),
    List.splitOn_append_cons_self_of_not_mem (notMem_slotText (by decide)), splitOn_last (notMem_slotText (by decide))]
  simp only [readSlot_slotText h.all, readSlot_slotText h.spam, readSlot_slotText h.trash, Option.bind_eq_bind,
    Option.bind_some, Option.pure_def]

end ImapCursor

/-! ## Told apart -/

variable {rest : List Char} {state : SyncState}

theorem decode_eq_none (h : state.toList = c :: rest) (hc : c ≠ 'v') : MailboxCursor.decode state = none := by
  unfold MailboxCursor.decode
  rw [h, stripFront_ne hc]
  rfl

theorem gmailRead_eq_none (h : state.toList = c :: rest)
    (hb : c ≠ 'b') (hr : c ≠ 'r') (hdigit : c.isDigit = false) : GmailCursor.read state = none := by
  have hback : stripFront "backfill;h=".toList (c :: rest) = none := stripFront_ne hb
  have hreconcile : stripFront "reconcile;h=".toList (c :: rest) = none := stripFront_ne hr
  unfold GmailCursor.read
  rw [h, hback, hreconcile]
  show (GmailCursor.historyId (c :: rest)).map GmailCursor.delta = none
  rw [GmailCursor.historyId_eq_none List.mem_cons_self hdigit]
  rfl

theorem imapRead_eq_none (h : state.toList = c :: rest) (hc : c ≠ 'i') : ImapCursor.read state = none := by
  have himap : stripFront "imap;".toList (c :: rest) = none := stripFront_ne hc
  unfold ImapCursor.read
  rw [h, himap]
  rfl

theorem gmailState_head {c : GmailCursor} (h : c.Written) :
    ∃ d rest, c.state.toList = d :: rest ∧ (d.isDigit = true ∨ d = 'b' ∨ d = 'r') := by
  cases c with
  | delta history =>
    obtain ⟨hne, hdigits⟩ : history.toList ≠ [] ∧ IsDigits history.toList := h.history
    cases htext : history.toList with
    | nil => exact absurd htext hne
    | cons d rest =>
      refine ⟨d, rest, htext, Or.inl (hdigits d ?_)⟩
      rw [htext]
      exact List.mem_cons_self
  | backfill history page => exact ⟨'b', _, GmailCursor.state_backfill history page, Or.inr (Or.inl rfl)⟩
  | reconcile history => exact ⟨'r', _, GmailCursor.state_reconcile history, Or.inr (Or.inr rfl)⟩

/-- Every cursor and every message key is read back as it was written, keys of different messages are different
texts, and no kind of cursor is read as another kind's. -/
theorem positions_read_back : (∀ c : MailboxCursor, c.InRange → MailboxCursor.decode c.encode = some c) ∧
    (∀ c : GmailCursor, c.Written → GmailCursor.read c.state = some c) ∧
    (∀ c : ImapCursor, c.InRange → ImapCursor.read c.state = some c) ∧
    (∀ (mailbox : MailboxName) (uidValidity uid : Nat), uidValidity < 2 ^ 32 → uid < 2 ^ 32 →
      parseMessageKey (messageKey mailbox.name uidValidity uid) = some (mailbox.name, uidValidity, uid)) ∧
    (∀ (mailbox mailbox' : String) (uidValidity uidValidity' uid uid' : Nat),
      (mailbox, uidValidity, uid) ≠ (mailbox', uidValidity', uid') →
      messageKey mailbox uidValidity uid ≠ messageKey mailbox' uidValidity' uid') ∧
    (∀ c : MailboxCursor, GmailCursor.read c.encode = none ∧ ImapCursor.read c.encode = none) ∧
    (∀ c : GmailCursor, c.Written → MailboxCursor.decode c.state = none ∧ ImapCursor.read c.state = none) ∧
    ∀ c : ImapCursor, MailboxCursor.decode c.state = none ∧ GmailCursor.read c.state = none := by
  refine ⟨fun c h => MailboxCursor.decode_encode h, fun c h => GmailCursor.read_state h,
    fun c h => ImapCursor.read_state h, fun mailbox _ _ hv hu => Imap.parseMessageKey_messageKey mailbox.nonempty hv hu, ?_, ?_, ?_, ?_⟩
  · intro mailbox mailbox' uidValidity uidValidity' uid uid' hne hkey
    obtain ⟨rfl, rfl, rfl⟩ := Imap.messageKey_inj hkey
    exact hne rfl
  · intro c
    have hhead := MailboxCursor.encode_toList c
    exact ⟨gmailRead_eq_none hhead (by decide) (by decide) (by decide), imapRead_eq_none hhead (by decide)⟩
  · intro c h
    obtain ⟨d, rest, hhead, hd⟩ := gmailState_head h
    constructor
    · refine decode_eq_none hhead ?_
      rintro rfl
      revert hd
      decide
    · refine imapRead_eq_none hhead ?_
      rintro rfl
      revert hd
      decide
  · intro c
    have hhead : c.state.toList = 'i' :: _ := ImapCursor.state_toList c
    exact ⟨decode_eq_none hhead (by decide), gmailRead_eq_none hhead (by decide) (by decide) (by decide)⟩

/-- A mailbox whose backfill is still descending, and an account's three folders of which two are shown. -/
def Sample.descending : MailboxCursor := ⟨7, 12, some 90, some 4, true, 1⟩

def Sample.shown : ImapCursor := ⟨some ⟨7, 12, 90, 3⟩, none, some ⟨4294967295, 1, 18446744073709551615, 0⟩⟩

def Sample.halfway : GmailCursor := .backfill "41" (some "p;2")

open Sample in
theorem positions_read_back_halfway : MailboxCursor.decode descending.encode = some descending ∧
    GmailCursor.read halfway.state = some halfway ∧ ImapCursor.read shown.state = some shown ∧
    parseMessageKey (messageKey "A@b" 1 7) = some ("A@b", 1, 7) ∧
    MailboxCursor.decode halfway.state = none := by
  have hread := positions_read_back
  have hwritten : halfway.Written := ⟨⟨by decide, by unfold IsDigits; decide⟩, fun h p e => by cases e; decide⟩
  refine ⟨hread.1 _ ⟨by decide, by decide, by decide, by decide, by decide⟩, hread.2.1 _ hwritten,
    hread.2.2.1 _ ⟨?_, ?_, ?_⟩, hread.2.2.2.1 ⟨"A@b", by decide⟩ 1 7 (by decide) (by decide),
    (hread.2.2.2.2.2.2.1 _ hwritten).1⟩
  · rintro m ⟨⟩
    exact ⟨by decide, by decide, by decide, by decide⟩
  · rintro m ⟨⟩
  · rintro m ⟨⟩
    exact ⟨by decide, by decide, by decide, by decide⟩

end Google
end SyncEngine
