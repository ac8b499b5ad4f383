import SyncEngine.Imap.SetTexts
import SyncEngine.Imap.FetchRows
import SyncEngine.Library.Whitespace

/-!
# Messages that vanished

The delta of a session that keeps mod-sequences has the server say which UIDs are gone, in sets that may name any number
of them.  They are expanded up to a cap, and the cursor goes on.
-/

namespace SyncEngine
namespace Imap

/-! ## The response -/

/-- The most UIDs one response is expanded to. -/
def maxVanished : Nat := 2 ^ 20

def partBounds (part : List Char) : Option Span :=
  match splitAtFirst [':'] part with
  | some (low, high) => do
    let low ← parseUnsigned 32 low
    let high ← parseUnsigned 32 high
    return (min low high, max low high)
  | none => (parseUnsigned 32 part).map fun uid => (uid, uid)

def expandParts (out : List Nat) : List (List Char) → List Nat
  | [] => out
  | part :: parts =>
    match partBounds part with
    | none => expandParts out parts
    | some s =>
      let room := maxVanished - out.length
      if s.2 + 1 - s.1 ≤ room then expandParts (out ++ s.members) parts
      else out ++ List.range' s.1 room

def expandUidSet (set : List Char) (out : List Nat) : List Nat := expandParts out (set.splitOn ',')

def isPlainWord (token : List Char) : Bool := token.head? ≠ some '('

/-- The set of a line that says what vanished: the first word after that which is no list. -/
def vanishedSet (line : Bytes) : Option (List Char) :=
  match splitWhiteSpace (Utf8.lossy line) with
  | [] => none
  | head :: tokens =>
    if head.map Char.toUpper = "VANISHED".toList then tokens.find? isPlainWord else none

def parseVanished (lines : List Bytes) : List Nat :=
  lines.foldl
    (fun out line =>
      match vanishedSet line with
      | some set => expandUidSet set out
      | none => out)
    []

/-! ## What the sets name -/

def namedBySet (set : List Char) : List Nat :=
  (set.splitOn ',').flatMap fun part => (partBounds part).elim [] Span.members

def namedByLine (line : Bytes) : List Nat := (vanishedSet line).elim [] namedBySet

def namedVanished (lines : List Bytes) : List Nat := lines.flatMap namedByLine

section Capped

variable {out : List Nat} {parts : List (List Char)} {s : Span}

theorem expandParts_eq (h : out.length ≤ maxVanished) : expandParts out parts =
    (out ++ parts.flatMap fun part => (partBounds part).elim [] Span.members).take maxVanished := by
  induction parts generalizing out with
  | nil =>
    rw [List.flatMap_nil, List.append_nil, List.take_of_length_le h]
    rfl
  | cons part parts ih =>
    rw [expandParts, List.flatMap_cons]
    cases hbounds : partBounds part with
    | none =>
      show expandParts out parts = _
      rw [ih h]
      rfl
    | some s =>
      show (if s.2 + 1 - s.1 ≤ maxVanished - out.length then expandParts (out ++ s.members) parts
        else out ++ List.range' s.1 (maxVanished - out.length)) =
          (out ++ (s.members ++ parts.flatMap fun part => (partBounds part).elim [] Span.members)).take maxVanished
      have hlength := Span.length_members s
      by_cases hroom : s.2 + 1 - s.1 ≤ maxVanished - out.length
      · have hfits : (out ++ s.members).length ≤ maxVanished := by
          rw [List.length_append]
          omega
        rw [if_pos hroom, ih hfits, List.append_assoc]
      · have htake : s.members.take (maxVanished - out.length) = List.range' s.1 (maxVanished - out.length) := by
          show (List.range' s.1 (s.2 + 1 - s.1)).take _ = _
          exact List.take_range'_of_length_ge (by omega)
        have hnone : maxVanished - out.length - s.members.length = 0 := by omega
        rw [if_neg hroom, List.take_append, List.take_of_length_le h, List.take_append, htake, hnone, List.take_zero,
          List.append_nil]

theorem parseVanished_eq (lines : List Bytes) : parseVanished lines = (namedVanished lines).take maxVanished := by
  have hfold : ∀ (lines : List Bytes) (before : List Nat), lines.foldl (fun out line =>
        match vanishedSet line with
        | some set => expandUidSet set out
        | none => out) (before.take maxVanished) = (before ++ namedVanished lines).take maxVanished := by
    intro lines
    induction lines with
    | nil =>
      intro before
      show before.take maxVanished = (before ++ []).take maxVanished
      rw [List.append_nil]
    | cons line lines ih =>
      intro before
      have hstep : (match vanishedSet line with
          | some set => expandUidSet set (before.take maxVanished)
          | none => before.take maxVanished) = (before ++ namedByLine line).take maxVanished := by
        unfold namedByLine
        cases vanishedSet line with
        | none =>
          show before.take maxVanished = (before ++ []).take maxVanished
          rw [List.append_nil]
        | some set =>
          show expandParts (before.take maxVanished) (set.splitOn ',') = (before ++ namedBySet set).take maxVanished
          have hlength : (before.take maxVanished).length ≤ maxVanished := List.length_take_le _ _
          rw [expandParts_eq hlength, List.take_append, List.take_append, List.take_take, Nat.min_self, List.length_take]
          rcases Nat.le_total before.length maxVanished with hle | hge
          · rw [min_eq_right hle]
            rfl
          · rw [min_eq_left hge, Nat.sub_self, Nat.sub_eq_zero_of_le hge, List.take_zero, List.take_zero]
      rw [List.foldl_cons, hstep, ih, List.append_assoc]
      rfl
  exact hfold lines []

end Capped

/-! ## What the grammar has a server say -/

/-- A line that says UIDs vanished, with or without the mark of a response to what changed since. -/
inductive SaysVanished (uids : List Nat) : Bytes → Prop
  | plain (word set ends : List Char) (hword : word.map Char.toUpper = "VANISHED".toList) (hset : readSet set = some uids)
      (hends : ∀ c ∈ ends, c = '\r' ∨ c = '\n') : SaysVanished uids (Utf8.bytes (word ++ ' ' :: (set ++ ends)))
  | earlier (word mark set ends : List Char) (hword : word.map Char.toUpper = "VANISHED".toList)
      (hmark : mark.map Char.toUpper = "(EARLIER)".toList) (hset : readSet set = some uids)
      (hends : ∀ c ∈ ends, c = '\r' ∨ c = '\n') :
      SaysVanished uids (Utf8.bytes (word ++ ' ' :: (mark ++ ' ' :: (set ++ ends))))

section Said

variable {uids : List Nat} {line : Bytes} {text set word upper ends : List Char} {uid : Nat}

theorem readUid_eq_some (h : readUid text = some uid) :
    text ≠ [] ∧ IsDigits text ∧ digitsValue text = uid ∧ uid < 2 ^ 32 := by
  unfold readUid at h
  split at h
  · rename_i hread
    obtain rfl := Option.some.inj h
    exact ⟨hread.1, fun c hc => List.all_eq_true.mp hread.2.1 c hc, rfl, hread.2.2.2⟩
  · exact nomatch h

theorem parseUnsigned_of_readUid (h : readUid text = some uid) : parseUnsigned 32 text = some uid := by
  obtain ⟨hne, hdigits, hvalue, hlt⟩ := readUid_eq_some h
  rw [parseUnsigned_digits hne hdigits (by rw [hvalue]; exact hlt), hvalue]

theorem bounds_of_readSpan (h : readSpan text = some uids) :
    (partBounds text).elim [] Span.members = uids ∧ text ≠ [] ∧ ∀ c ∈ text, c.isDigit = true ∨ c = ':' := by
  unfold readSpan at h
  unfold partBounds
  cases hcut : splitAtFirst [':'] text with
  | none =>
    rw [hcut] at h
    obtain ⟨uid, huid, rfl⟩ := Option.map_eq_some_iff.mp h
    obtain ⟨hne, hdigits, -, -⟩ := readUid_eq_some huid
    dsimp only
    rw [parseUnsigned_of_readUid huid]
    exact ⟨Span.members_single uid, hne, fun c hc => .inl (hdigits c hc)⟩
  | some cut =>
    obtain ⟨low, high⟩ := cut
    rw [hcut] at h
    obtain ⟨first, hfirst, h⟩ := Option.bind_eq_some_iff.mp h
    obtain ⟨last, hlast, h⟩ := Option.bind_eq_some_iff.mp h
    obtain rfl := Option.some.inj h
    obtain ⟨rfl, -⟩ := splitAtFirst_eq_some_iff.mp hcut
    dsimp only
    rw [parseUnsigned_of_readUid hfirst, parseUnsigned_of_readUid hlast]
    refine ⟨rfl, by simp, fun c hc => ?_⟩
    rcases List.mem_append.mp hc with hc | hc
    · exact .inl ((readUid_eq_some hfirst).2.1 c hc)
    · rcases List.mem_cons.mp hc with rfl | hc
      · exact .inr rfl
      · exact .inl ((readUid_eq_some hlast).2.1 c hc)

theorem namedBySet_eq (h : readSet set = some uids) :
    namedBySet set = uids ∧ set ≠ [] ∧ ∀ c ∈ set, c.isDigit = true ∨ c = ':' ∨ c = ',' := by
  obtain ⟨parts, hparts, rfl⟩ := Option.map_eq_some_iff.mp h
  have hread := Fallible.mapM_some_iff.mp hparts
  have hnamed : ∀ (texts : List (List Char)) (parts : List (List Nat)),
      List.Forall₂ (fun text uids => readSpan text = some uids) texts parts →
      (texts.flatMap fun part => (partBounds part).elim [] Span.members) = parts.flatten ∧
        ∀ text ∈ texts, text ≠ [] ∧ ∀ c ∈ text, c.isDigit = true ∨ c = ':' := by
    intro texts parts hforall
    induction hforall with
    | nil => exact ⟨rfl, fun text htext => nomatch htext⟩
    | cons hfirst _ ih =>
      obtain ⟨hmembers, hsigns⟩ := bounds_of_readSpan hfirst
      refine ⟨by rw [List.flatMap_cons, hmembers, ih.1, List.flatten_cons], fun text htext => ?_⟩
      rcases List.mem_cons.mp htext with rfl | hlater
      · exact hsigns
      · exact ih.2 text hlater
  obtain ⟨hflat, hsigns⟩ := hnamed _ _ hread
  refine ⟨hflat, ?_, fun c hc => ?_⟩
  · rintro rfl
    exact (hsigns [] List.mem_cons_self).1 rfl
  · have hjoin : [','].intercalate (set.splitOn ',') = set := List.intercalate_splitOn ','
    rw [← hjoin] at hc
    have hin : ∀ texts : List (List Char), c ∈ [','].intercalate texts → c = ',' ∨ ∃ text ∈ texts, c ∈ text := by
      intro texts
      induction texts with
      | nil => exact fun hc => nomatch hc
      | cons text texts ih =>
        cases texts with
        | nil =>
          intro hc
          rw [List.intercalate_singleton] at hc
          exact .inr ⟨text, List.mem_cons_self, hc⟩
        | cons next texts =>
          intro hc
          rw [List.intercalate_cons_cons, List.append_assoc] at hc
          rcases List.mem_append.mp hc with hc | hc
          · exact .inr ⟨text, List.mem_cons_self, hc⟩
          · rcases List.mem_cons.mp hc with rfl | hc
            · exact .inl rfl
            · rcases ih hc with hc | ⟨text', htext', hc⟩
              · exact .inl hc
              · exact .inr ⟨text', List.mem_cons_of_mem _ htext', hc⟩
    rcases hin _ hc with rfl | ⟨text, htext, hc⟩
    · exact .inr (.inr rfl)
    · rcases (hsigns text htext).2 c hc with hdigit | hcolon
      · exact .inl hdigit
      · exact .inr (.inl hcolon)

theorem toUpper_other {c : Char} (h : ¬(97 ≤ c.toNat ∧ c.toNat ≤ 122)) : c.toUpper = c := by
  unfold Char.toUpper
  rw [dif_neg]
  exact fun hletter => h ⟨hletter.1, hletter.2⟩

theorem toUpper_space {c : Char} (h : isWhiteSpace c = true) : c.toUpper = c := by
  apply toUpper_other
  intro hletter
  simp only [isWhiteSpace, Bool.or_eq_true, Bool.and_eq_true, decide_eq_true_eq, beq_iff_eq] at h
  omega

theorem toUpper_paren {c : Char} (h : c.toUpper = '(') : c = '(' := by
  by_cases hletter : 97 ≤ c.toNat ∧ c.toNat ≤ 122
  · have htable : ∀ n < 123, 97 ≤ n → (Char.ofNat n).toUpper ≠ '(' := by decide
    have hother := htable c.toNat (by omega) hletter.1
    rw [Char.ofNat_toNat] at hother
    exact absurd h hother
  · rw [← h, toUpper_other hletter]

theorem word_of_upper (h : word.map Char.toUpper = upper) (hne : upper ≠ [])
    (hupper : ∀ c ∈ upper, isWhiteSpace c = false) : word ≠ [] ∧ ∀ c ∈ word, isWhiteSpace c = false := by
  subst h
  refine ⟨fun hnil => hne (congrArg (List.map Char.toUpper) hnil), fun c hc => ?_⟩
  have hc' := hupper c.toUpper (List.mem_map_of_mem hc)
  by_contra hspace
  have hspace' : isWhiteSpace c = true := by simpa using hspace
  rw [toUpper_space hspace', hspace'] at hc'
  exact nomatch hc'

theorem word_of_set (h : readSet set = some uids) :
    set ≠ [] ∧ (∀ c ∈ set, isWhiteSpace c = false) ∧ isPlainWord set = true := by
  obtain ⟨-, hne, hsigns⟩ := namedBySet_eq h
  have hplain : ∀ c ∈ set, isWhiteSpace c = false ∧ c ≠ '(' := by
    intro c hc
    rcases hsigns c hc with hdigit | rfl | rfl
    · have hbounds := digit_bounds hdigit
      have hspace : isWhiteSpace c = false := by
        apply Bool.eq_false_iff.mpr
        intro hspace
        simp only [isWhiteSpace, Bool.or_eq_true, Bool.and_eq_true, decide_eq_true_eq, beq_iff_eq] at hspace
        omega
      refine ⟨hspace, ?_⟩
      rintro rfl
      exact absurd hdigit (by decide)
    · decide
    · decide
  refine ⟨hne, fun c hc => (hplain c hc).1, decide_eq_true ?_⟩
  intro hhead
  exact (hplain '(' (List.mem_of_mem_head? hhead)).2 rfl

theorem isWhiteSpace_ends (hends : ∀ c ∈ ends, c = '\r' ∨ c = '\n') : ∀ c ∈ ends, isWhiteSpace c = true := by
  intro c hc
  rcases hends c hc with rfl | rfl
  · decide
  · decide

theorem namedByLine_eq (h : SaysVanished uids line) : namedByLine line = uids := by
  have hname : ∀ c ∈ "VANISHED".toList, isWhiteSpace c = false := by decide
  have hearlier : ∀ c ∈ "(EARLIER)".toList, isWhiteSpace c = false := by decide
  cases h with
  | plain word set ends hword hset hends =>
    obtain ⟨hne, hplain⟩ := word_of_upper hword (by decide) hname
    obtain ⟨hsetne, hsetplain, hopen⟩ := word_of_set hset
    have hwords : splitWhiteSpace (word ++ ' ' :: (set ++ ends)) = [word, set] := by
      rw [splitWhiteSpace_cons hne hplain (by decide), splitWhiteSpace_last hsetne hsetplain (isWhiteSpace_ends hends)]
    have hfound : vanishedSet (Utf8.bytes (word ++ ' ' :: (set ++ ends))) = some set := by
      unfold vanishedSet
      rw [Utf8.lossy_bytes, hwords]
      dsimp only
      rw [if_pos hword, List.find?_cons_of_pos hopen]
    unfold namedByLine
    rw [hfound]
    exact (namedBySet_eq hset).1
  | earlier word mark set ends hword hmark hset hends =>
    obtain ⟨hne, hplain⟩ := word_of_upper hword (by decide) hname
    obtain ⟨hmarkne, hmarkplain⟩ := word_of_upper hmark (by decide) hearlier
    obtain ⟨hsetne, hsetplain, hopen⟩ := word_of_set hset
    have hwords : splitWhiteSpace (word ++ ' ' :: (mark ++ ' ' :: (set ++ ends))) = [word, mark, set] := by
      rw [splitWhiteSpace_cons hne hplain (by decide), splitWhiteSpace_cons hmarkne hmarkplain (by decide),
        splitWhiteSpace_last hsetne hsetplain (isWhiteSpace_ends hends)]
    have hlist : isPlainWord mark = false := by
      cases mark with
      | nil => exact absurd rfl hmarkne
      | cons c mark =>
        rw [toUpper_paren (List.cons.inj hmark).1]
        rfl
    have hfound : vanishedSet (Utf8.bytes (word ++ ' ' :: (mark ++ ' ' :: (set ++ ends)))) = some set := by
      unfold vanishedSet
      rw [Utf8.lossy_bytes, hwords]
      dsimp only
      rw [if_pos hword, List.find?_cons_of_neg (by rw [hlist]; exact Bool.false_ne_true), List.find?_cons_of_pos hopen]
    unfold namedByLine
    rw [hfound]
    exact (namedBySet_eq hset).1

end Said

/-! ## The delta -/

section Delta

open Dialogue Mail

variable {δ : Type} {on : Binding} {uidValidity sinceModseq syncedBelow uidNext : Nat} {nextCursor : SyncState}
  {t : List (Exchange (Request δ) Request.Answer)} {page : SyncPage (Content δ)} {P : Request δ → Prop}

/-- Whether a command asks for what messages are like. -/
def IsFetching : Request δ → Prop
  | .fetch _ | .fetchStructure _ => True
  | _ => False

theorem only_collect {ask : UidSet → Pass δ (List (FetchRow δ))} (h : ∀ set, Only P (ask set)) (sets : List UidSet) :
    Only P (Pass.collect ask sets) := by
  induction sets with
  | nil => exact only_pure _
  | cons set sets ih => exact only_bind (h set) fun rows => only_bind ih fun more => only_pure _

theorem only_uidFetchMetadata (session : Negotiated) (set : UidSet) :
    Only IsFetching (uidFetchMetadata session set : Pass δ _) := by
  refine only_bind (only_request trivial) fun rows => ?_
  refine only_bind ?_ fun answers => only_pure _
  exact only_collect (fun set => only_request trivial) _

theorem only_arrivalsFrom : Only IsFetching (arrivalsFrom on syncedBelow uidNext : Pass δ _) := by
  unfold arrivalsFrom
  split
  · exact only_uidFetchMetadata _ _
  · exact only_pure _

theorem removed_of_runs
    (h : Runs (deltaPage on uidValidity nextCursor sinceModseq syncedBelow uidNext) t page) {set : UidSet} {modseq : Nat}
    {answer : List (FetchRow δ) × List Nat} (ht : ⟨.changedSince set modseq, answer⟩ ∈ t) :
    page.removed = answer.2.map (messageKey on.mailbox uidValidity) := by
  unfold deltaPage at h
  obtain ⟨t₁, state, t₂, rfl, hstate, h⟩ := runs_bind.mp h
  obtain ⟨t₂, arrivals, t₃, rfl, harrivals, h⟩ := runs_bind.mp h
  obtain ⟨rfl, rfl⟩ := runs_pure.mp h
  have hfetching := only_of_runs harrivals only_arrivalsFrom
  rw [List.append_nil] at ht
  have hfirst : ⟨.changedSince set modseq, answer⟩ ∈ t₁ := by
    rcases List.mem_append.mp ht with ht | ht
    · exact ht
    · exact absurd (hfetching _ ht) id
  unfold changedBelow at hstate
  split at hstate
  · obtain rfl := runs_request.mp hstate
    obtain he := List.mem_singleton.mp hfirst
    cases he
    rfl
  · obtain ⟨rfl, -⟩ := runs_pure.mp hstate
    exact nomatch hfirst

def Vanished (lines : List Bytes) (uid : Nat) : Prop := ∃ line ∈ lines, ∃ uids, SaysVanished uids line ∧ uid ∈ uids

theorem mem_namedVanished {lines : List Bytes} {uid : Nat} (h : Vanished lines uid) : uid ∈ namedVanished lines := by
  obtain ⟨line, hline, uids, hsays, huid⟩ := h
  apply List.mem_flatMap.mpr
  refine ⟨line, hline, ?_⟩
  rw [namedByLine_eq hsays]
  exact huid

/-- A delta removes a message whose UID vanished exactly where the UID is among the first of those its response names,
as many as the cap: all of them where the response names no more. -/
theorem vanished_removed {lines : List Bytes} {rows : List (FetchRow δ)} {set : UidSet} {modseq : Nat}
    (h : Runs (deltaPage on uidValidity nextCursor sinceModseq syncedBelow uidNext) t page)
    (hlines : ⟨.changedSince set modseq, (rows, parseVanished lines)⟩ ∈ t) :
    (∀ uid, Vanished lines uid → (messageKey on.mailbox uidValidity uid ∈ page.removed ↔
      ∃ i < 2 ^ 20, (namedVanished lines)[i]? = some uid)) ∧
    ((namedVanished lines).length ≤ 2 ^ 20 →
      ∀ uid, Vanished lines uid → messageKey on.mailbox uidValidity uid ∈ page.removed) := by
  have hremoved : ∀ uid, messageKey on.mailbox uidValidity uid ∈ page.removed ↔
      ∃ i < 2 ^ 20, (namedVanished lines)[i]? = some uid := by
    intro uid
    rw [removed_of_runs h hlines, List.mem_map_of_injective (messageKey_injective on.mailbox uidValidity)]
    show uid ∈ parseVanished lines ↔ _
    rw [parseVanished_eq, List.mem_iff_getElem?]
    constructor
    · rintro ⟨i, hi⟩
      rw [List.getElem?_take] at hi
      split at hi
      · rename_i hlt
        exact ⟨i, hlt, hi⟩
      · exact nomatch hi
    · rintro ⟨i, hlt, hi⟩
      refine ⟨i, ?_⟩
      rw [List.getElem?_take]
      exact (if_pos hlt).trans hi
  refine ⟨fun uid _ => hremoved uid, fun hfits uid huid => (hremoved uid).mpr ?_⟩
  obtain ⟨i, hi⟩ := List.mem_iff_getElem?.mp (mem_namedVanished huid)
  have hlt := (List.getElem?_eq_some_iff.mp hi).1
  exact ⟨i, by omega, hi⟩

def inbox : Binding := ⟨⟨true, false, none⟩, "INBOX"⟩

def quietDelta (syncedBelow : Nat) (lines : List Bytes) : List (Exchange (Request δ) Request.Answer) :=
  [⟨.changedSince [.span 1 (syncedBelow - 1)] 5, ([], parseVanished lines)⟩]

theorem mem_quietDelta (lines : List Bytes) :
    (⟨.changedSince [.span 1 (syncedBelow - 1)] 5, ([], parseVanished lines)⟩ : Exchange (Request δ) Request.Answer) ∈
      quietDelta syncedBelow lines := List.mem_cons_self

theorem runs_quietDelta (hbelow : 1 < syncedBelow) (lines : List Bytes) : ∃ page : SyncPage (Content δ),
      Runs (deltaPage inbox 1 nextCursor 5 syncedBelow syncedBelow) (quietDelta syncedBelow lines) page ∧
      page.removed = (parseVanished lines).map (messageKey "INBOX" 1) := by
  have hstate : Runs (changedBelow 5 syncedBelow : Pass δ _) (quietDelta syncedBelow lines) ([], parseVanished lines) := by
    unfold changedBelow
    rw [if_pos hbelow]
    exact runs_request.mpr rfl
  have harrivals : Runs (arrivalsFrom inbox syncedBelow syncedBelow : Pass δ _) [] [] := by
    unfold arrivalsFrom
    rw [if_neg (Nat.lt_irrefl _)]
    exact runs_pure.mpr ⟨rfl, rfl⟩
  have hrun : ∃ page : SyncPage (Content δ),
      Runs (deltaPage inbox 1 nextCursor 5 syncedBelow syncedBelow) (quietDelta syncedBelow lines) page := by
    unfold deltaPage
    simp only [runs_bind]
    exact ⟨_, _, _, [], (List.append_nil _).symm, hstate, [], _, [], rfl, harrivals, runs_pure.mpr ⟨rfl, rfl⟩⟩
  obtain ⟨page, hrun⟩ := hrun
  exact ⟨page, hrun, removed_of_runs hrun (mem_quietDelta lines)⟩

def sevenLine : Bytes := Utf8.bytes "VANISHED (EARLIER) 7".toList

theorem saysVanished_sevenLine : SaysVanished [7] sevenLine :=
  .earlier "VANISHED".toList "(EARLIER)".toList "7".toList [] (by decide) (by decide) (by decide +kernel)
    fun c hc => nomatch hc

theorem vanished_removed_seven : ∃ (t : List (Exchange (Request Unit) Request.Answer)) (page : SyncPage (Content Unit)),
    Runs (deltaPage inbox 1 "" 5 10 10) t page ∧
      ⟨.changedSince [.span 1 (10 - 1)] 5, ([], parseVanished [sevenLine])⟩ ∈ t ∧
      Vanished [sevenLine] 7 ∧ messageKey inbox.mailbox 1 7 ∈ page.removed := by
  obtain ⟨page, hrun, -⟩ := @runs_quietDelta Unit 10 "" (by decide) [sevenLine]
  have hlines := @mem_quietDelta Unit 10 [sevenLine]
  have hvanished : Vanished [sevenLine] 7 :=
    ⟨sevenLine, List.mem_cons_self, [7], saysVanished_sevenLine, List.mem_cons_self⟩
  have hnamed : namedVanished [sevenLine] = [7] := by
    rw [namedVanished, List.flatMap_cons, List.flatMap_nil, List.append_nil, namedByLine_eq saysVanished_sevenLine]
  refine ⟨_, page, hrun, hlines, hvanished, (vanished_removed hrun hlines).2 ?_ 7 hvanished⟩
  rw [hnamed]
  decide

/-- A set that names one UID more than the cap. -/
def wideLine : Bytes := Utf8.bytes "VANISHED 1:1048577".toList

theorem saysVanished_wideLine : SaysVanished (Span.members (1, 1048577)) wideLine := by
  have htext : "1:1048577".toList = rangeText (1, 1048577) := by decide
  have hread : readSet "1:1048577".toList = some (Span.members (1, 1048577)) := by
    rw [htext, spells_rangeText (by decide) (by decide)]
    simp
  exact .plain "VANISHED".toList "1:1048577".toList [] (by decide) hread (fun c hc => nomatch hc)

theorem last_not_mem_take {s : Span} (h : maxVanished < s.2 + 1 - s.1) : s.2 ∉ s.members.take maxVanished := by
  show s.2 ∉ (List.range' s.1 (s.2 + 1 - s.1)).take maxVanished
  rw [List.take_range'_of_length_ge (Nat.le_of_lt h), List.mem_range'_1]
  omega

theorem last_of_wide_is_forgotten : ∃ (t : List (Exchange (Request Unit) Request.Answer)) (page : SyncPage (Content Unit)),
    Runs (deltaPage inbox 1 "" 5 2000000 2000000) t page ∧
      ⟨.changedSince [.span 1 (2000000 - 1)] 5, ([], parseVanished [wideLine])⟩ ∈ t ∧
      Vanished [wideLine] 1048577 ∧ 1048577 < 2000000 ∧ messageKey inbox.mailbox 1 1048577 ∉ page.removed := by
  obtain ⟨page, hrun, hremoved⟩ := @runs_quietDelta Unit 2000000 "" (by decide) [wideLine]
  have hlines := @mem_quietDelta Unit 2000000 [wideLine]
  have hin : 1048577 ∈ Span.members (1, 1048577) := by
    rw [Span.mem_members]
    decide
  have hsays := saysVanished_wideLine
  have hnamed : namedVanished [wideLine] = Span.members (1, 1048577) := by
    rw [namedVanished, List.flatMap_cons, List.flatMap_nil, List.append_nil, namedByLine_eq hsays]
  have hcut : 1048577 ∉ (Span.members (1, 1048577)).take maxVanished := @last_not_mem_take (1, 1048577) (by decide)
  have hgone : messageKey inbox.mailbox 1 1048577 ∉ page.removed := by
    rw [hremoved, parseVanished_eq, hnamed]
    intro hmem
    obtain ⟨uid, huid, he⟩ := List.mem_map.mp hmem
    obtain rfl := messageKey_injective "INBOX" 1 he
    exact hcut huid
  exact ⟨_, page, hrun, hlines, ⟨wideLine, List.mem_cons_self, _, hsays, hin⟩, by decide, hgone⟩

end Delta

end Imap
end SyncEngine
