import Mathlib
import SyncEngine.Imap.Fetch
import SyncEngine.Imap.Written

/-!
# Keywords as flags

A keyword is written as a flag: four have a flag of the protocol, the others stand for themselves.  A keyword is the
same after the server lists it, but for one that is spelled like the absence of a value.
-/

namespace SyncEngine
namespace Imap
namespace Wire

open Utf8

/-! ## The type -/

inductive KeywordError
  | empty
  | tooLong (actual : Nat)
  | invalidCharacter (found : Char)
deriving DecidableEq

def forbiddenBytes : List UInt8 := ['(', ')', '{', ']', '%', '*', '"', '\\'].map ascii

def isKeywordByte (b : UInt8) : Bool := 0x21 ≤ b.toNat && b.toNat ≤ 0x7e && !forbiddenBytes.contains b

def maxKeywordLen : Nat := 255

/-- A keyword in its canonical form. -/
structure Keyword where
  text : List Char
  nonempty : text ≠ []
  short : text.length ≤ maxKeywordLen
  admitted : ∀ c ∈ text, c.toNat < 128 ∧ isKeywordByte (ascii c) = true
  lowered : ∀ c ∈ text, c.toLower = c
deriving DecidableEq

section Admitted

variable {text : List Char} {c : Char}

theorem admitted_of_bytes (h : ∀ b ∈ bytes text, isKeywordByte b = true) :
    ∀ c ∈ text, c.toNat < 128 ∧ isKeywordByte (ascii c) = true := by
  intro c hc
  have hmem : ∀ b ∈ String.utf8EncodeChar c, isKeywordByte b = true := fun b hb =>
    h b (List.mem_flatMap.mpr ⟨c, hc, hb⟩)
  by_cases hlow : c.toNat < 128
  · rw [encode_of_lt hlow] at hmem
    exact ⟨hlow, hmem _ List.mem_cons_self⟩
  · obtain ⟨b, hb⟩ := List.exists_mem_of_ne_nil _ (String.utf8EncodeChar_ne_nil (c := c))
    have hhigh := high_of_le (Nat.le_of_not_lt hlow) b hb
    have hbyte := hmem b hb
    simp only [isKeywordByte, Bool.and_eq_true, decide_eq_true_eq] at hbyte
    omega

theorem lower_table : ∀ n < 128, isKeywordByte (ascii (Char.ofNat n)) = true →
    (Char.ofNat n).toLower.toNat < 128 ∧ isKeywordByte (ascii (Char.ofNat n).toLower) = true ∧
      (Char.ofNat n).toLower.toLower = (Char.ofNat n).toLower := by decide

theorem admitted_toLower (h : c.toNat < 128 ∧ isKeywordByte (ascii c) = true) :
    c.toLower.toNat < 128 ∧ isKeywordByte (ascii c.toLower) = true ∧ c.toLower.toLower = c.toLower := by
  have htable := lower_table c.toNat h.1
  rw [Char.ofNat_toNat] at htable
  exact htable h.2

end Admitted

def badByte (value : List Char) : Option UInt8 := (bytes value).find? fun b => !isKeywordByte b

theorem admitted_of_badByte {value : List Char} (h : badByte value = none) :
    ∀ c ∈ value, c.toNat < 128 ∧ isKeywordByte (ascii c) = true := by
  apply admitted_of_bytes
  intro b hb
  have hgood := List.find?_eq_none.mp h b hb
  simpa using hgood

def Keyword.new (value : List Char) : Except KeywordError Keyword :=
  if hempty : value = [] then .error .empty
  else if hlong : maxKeywordLen < size value then .error (.tooLong value.length)
  else
    match hbad : badByte value with
    | some b => .error (.invalidCharacter (Char.ofNat b.toNat))
    | none => .ok
      { text := value.map Char.toLower
        nonempty := by simpa using hempty
        short := by
          have hsize := size_eq_length fun c hc => (admitted_of_badByte hbad c hc).1
          rw [List.length_map]
          omega
        admitted := by
          intro c hc
          obtain ⟨d, hd, rfl⟩ := List.mem_map.mp hc
          have hlower := admitted_toLower (admitted_of_badByte hbad d hd)
          exact ⟨hlower.1, hlower.2.1⟩
        lowered := by
          intro c hc
          obtain ⟨d, hd, rfl⟩ := List.mem_map.mp hc
          exact (admitted_toLower (admitted_of_badByte hbad d hd)).2.2 }

inductive SystemKeyword
  | draft
  | seen
  | flagged
  | answered
  | forwarded
  | junk
  | notJunk
  | phishing
  | mdnSent
deriving DecidableEq

def SystemKeyword.text : SystemKeyword → List Char
  | .draft => "$draft".toList
  | .seen => "$seen".toList
  | .flagged => "$flagged".toList
  | .answered => "$answered".toList
  | .forwarded => "$forwarded".toList
  | .junk => "$junk".toList
  | .notJunk => "$notjunk".toList
  | .phishing => "$phishing".toList
  | .mdnSent => "$mdnsent".toList

def SystemKeyword.fromCanonical (text : List Char) : Option SystemKeyword :=
  if text = "$draft".toList then some .draft
  else if text = "$seen".toList then some .seen
  else if text = "$flagged".toList then some .flagged
  else if text = "$answered".toList then some .answered
  else if text = "$forwarded".toList then some .forwarded
  else if text = "$junk".toList then some .junk
  else if text = "$notjunk".toList then some .notJunk
  else if text = "$phishing".toList then some .phishing
  else if text = "$mdnsent".toList then some .mdnSent
  else none

def Keyword.system (keyword : SystemKeyword) : Keyword where
  text := keyword.text
  nonempty := by cases keyword <;> decide
  short := by cases keyword <;> decide
  admitted := by cases keyword <;> decide
  lowered := by cases keyword <;> decide

def Keyword.asSystem (keyword : Keyword) : Option SystemKeyword := SystemKeyword.fromCanonical keyword.text

/-! ## Flags -/

def systemOfFlag (name : List Char) : Option SystemKeyword :=
  let lower := name.map Char.toLower
  if lower = "seen".toList then some .seen
  else if lower = "flagged".toList then some .flagged
  else if lower = "answered".toList then some .answered
  else if lower = "draft".toList then some .draft
  else none

def flagToKeyword (flag : List Char) : Option Keyword :=
  match stripFront ['\\'] flag with
  | some name => (systemOfFlag name).map Keyword.system
  | none => (Keyword.new flag).toOption

def flagsToKeywords (flags : List (List Char)) : Finset Keyword := (flags.filterMap flagToKeyword).toFinset

def keywordToFlag (keyword : Keyword) : List Char :=
  match keyword.asSystem with
  | some .seen => "\\Seen".toList
  | some .flagged => "\\Flagged".toList
  | some .answered => "\\Answered".toList
  | some .draft => "\\Draft".toList
  | _ => keyword.text

/-! ## Back from a flag -/

section Back

variable {k k' : Keyword} {s : SystemKeyword} {text : List Char}

theorem Keyword.eq_of_text (h : k.text = k'.text) : k = k' := by
  cases k
  cases k'
  cases h
  rfl

theorem badByte_text (k : Keyword) : badByte k.text = none := by
  apply List.find?_eq_none.mpr
  intro b hb
  rw [bytes_eq_map fun c hc => (k.admitted c hc).1] at hb
  obtain ⟨c, hc, rfl⟩ := List.mem_map.mp hb
  rw [(k.admitted c hc).2]
  exact Bool.false_ne_true

theorem Keyword.new_text (k : Keyword) : Keyword.new k.text = .ok k := by
  have hsize := size_eq_length fun c hc => (k.admitted c hc).1
  have hshort := k.short
  have hlower : k.text.map Char.toLower = k.text := by
    have hid : k.text.map Char.toLower = k.text.map id := List.map_congr_left fun c hc => k.lowered c hc
    rw [hid, List.map_id]
  unfold Keyword.new
  rw [dif_neg k.nonempty, dif_neg (by omega)]
  split
  · rename_i b hbad
    rw [badByte_text] at hbad
    exact nomatch hbad
  · exact congrArg Except.ok (Keyword.eq_of_text hlower)

theorem SystemKeyword.text_of_fromCanonical (h : SystemKeyword.fromCanonical text = some s) : text = s.text := by
  unfold SystemKeyword.fromCanonical at h
  repeat' split at h
  all_goals
    cases h
    try assumption

theorem Keyword.eq_system (h : k.asSystem = some s) : k = Keyword.system s :=
  Keyword.eq_of_text (SystemKeyword.text_of_fromCanonical h)

/-- A flag of the protocol, and what it is read as. -/
structure IsSystemFlag (name : List Char) (s : SystemKeyword) : Prop where
  back : systemOfFlag name = some s
  visible : ∀ c ∈ '\\' :: name, 0x20 < c.toNat ∧ c.toNat < 0x7f ∧ c ≠ '(' ∧ c ≠ ')' ∧ c ≠ '{' ∧ c ≠ '"'
  present : isNil ('\\' :: name) = false
  named : s.text ≠ "nil".toList

theorem keywordToFlag_cases (k : Keyword) :
    (∃ name s, keywordToFlag k = '\\' :: name ∧ k = Keyword.system s ∧ IsSystemFlag name s) ∨
      keywordToFlag k = k.text := by
  unfold keywordToFlag
  split
  · rename_i h
    exact .inl ⟨"Seen".toList, .seen, rfl, Keyword.eq_system h, rfl, by decide, rfl, by decide⟩
  · rename_i h
    exact .inl ⟨"Flagged".toList, .flagged, rfl, Keyword.eq_system h, rfl, by decide, rfl, by decide⟩
  · rename_i h
    exact .inl ⟨"Answered".toList, .answered, rfl, Keyword.eq_system h, rfl, by decide, rfl, by decide⟩
  · rename_i h
    exact .inl ⟨"Draft".toList, .draft, rfl, Keyword.eq_system h, rfl, by decide, rfl, by decide⟩
  · exact .inr rfl

theorem admitted_visible {c : Char} (h : c.toNat < 128 ∧ isKeywordByte (ascii c) = true) :
    0x20 < c.toNat ∧ c.toNat < 0x7f ∧ c ≠ '(' ∧ c ≠ ')' ∧ c ≠ '{' ∧ c ≠ '"' ∧ c ≠ '\\' := by
  have hbounds := h.2
  have hbyte := ascii_toNat h.1
  simp only [isKeywordByte, Bool.and_eq_true, decide_eq_true_eq] at hbounds
  have hforbidden : ∀ d : Char, isKeywordByte (ascii d) = false → c ≠ d := by
    rintro d hd rfl
    rw [h.2] at hd
    exact nomatch hd
  refine ⟨by omega, by omega, ?_⟩
  exact ⟨hforbidden _ (by decide), hforbidden _ (by decide), hforbidden _ (by decide), hforbidden _ (by decide),
    hforbidden _ (by decide)⟩

theorem flagToKeyword_keywordToFlag (k : Keyword) : flagToKeyword (keywordToFlag k) = some k := by
  rcases keywordToFlag_cases k with ⟨name, s, hflag, rfl, hsystem⟩ | hflag
  · have hstrip : stripFront ['\\'] ('\\' :: name) = some name := stripFront_eq_some_iff.mpr rfl
    rw [hflag, flagToKeyword, hstrip]
    show (systemOfFlag name).map Keyword.system = _
    rw [hsystem.back]
    rfl
  · have hstrip : stripFront ['\\'] k.text = none := by
      cases htext : k.text with
      | nil => rfl
      | cons c text =>
        have hc := admitted_visible (k.admitted c (htext ▸ List.mem_cons_self))
        exact stripFront_ne hc.2.2.2.2.2.2
    rw [hflag, flagToKeyword, hstrip]
    show (Keyword.new k.text).toOption = _
    rw [Keyword.new_text]
    rfl

theorem keywordToFlag_injective : Function.Injective keywordToFlag := by
  intro k k' h
  have hback := flagToKeyword_keywordToFlag k
  rw [h, flagToKeyword_keywordToFlag] at hback
  exact (Option.some.inj hback).symm

theorem isAtom_keywordToFlag (k : Keyword) : IsAtom (keywordToFlag k) := by
  rcases keywordToFlag_cases k with ⟨name, s, hflag, rfl, hsystem⟩ | hflag
  · rw [hflag]
    exact ⟨List.cons_ne_nil _ _, hsystem.visible⟩
  · rw [hflag]
    refine ⟨k.nonempty, fun c hc => ?_⟩
    have hvisible := admitted_visible (k.admitted c hc)
    exact ⟨hvisible.1, hvisible.2.1, hvisible.2.2.1, hvisible.2.2.2.1, hvisible.2.2.2.2.1, hvisible.2.2.2.2.2.1⟩

theorem upper_table : ∀ n < 128, (Char.ofNat n).toLower = Char.ofNat n →
    (Char.ofNat n).toUpper.toLower = Char.ofNat n := by decide

theorem isNil_keywordToFlag (k : Keyword) : isNil (keywordToFlag k) = true ↔ k.text = "nil".toList := by
  rcases keywordToFlag_cases k with ⟨name, s, hflag, rfl, hsystem⟩ | hflag
  · rw [hflag, hsystem.present]
    exact ⟨fun h => (nomatch h), fun h => absurd h hsystem.named⟩
  · rw [hflag]
    constructor
    · intro hnil
      have hupper : k.text.map Char.toUpper = "NIL".toList := of_decide_eq_true hnil
      have hback : (k.text.map Char.toUpper).map Char.toLower = k.text := by
        rw [List.map_map]
        have hid : k.text.map (Char.toLower ∘ Char.toUpper) = k.text.map id := by
          apply List.map_congr_left
          intro c hc
          have htable := upper_table c.toNat (k.admitted c hc).1
          rw [Char.ofNat_toNat] at htable
          exact htable (k.lowered c hc)
        rw [hid, List.map_id]
      rw [← hback, hupper]
      decide
    · intro h
      rw [h]
      decide

theorem flagsToKeywords_map (keywords : List Keyword) :
    flagsToKeywords (keywords.map keywordToFlag) = keywords.toFinset := by
  have hback : (keywords.map keywordToFlag).filterMap flagToKeyword = keywords := by
    rw [List.filterMap_map]
    have hsome : flagToKeyword ∘ keywordToFlag = some := funext flagToKeyword_keywordToFlag
    rw [hsome, List.filterMap_some]
  rw [flagsToKeywords, hback]

end Back

/-! ## Over the wire -/

def flagsLine (number uid : Nat) (flags : List (List Char)) : List Char :=
  decimal number ++ ' ' :: ("FETCH".toList ++ ' ' :: ('(' :: ("UID".toList ++ ' ' :: (decimal uid ++
    ' ' :: ("FLAGS".toList ++ ' ' :: ('(' :: ([' '].intercalate flags ++ [')'])))) ++ [')'])))

def itemOfAtom (text : List Char) : Item := if isNil text then .nil else .atom text

section Listed

variable {limit : Nat} {texts : List (List Char)} {text : List Char}

theorem written_itemOfAtom (h : IsAtom text) : Written limit [itemOfAtom text] (bytes text) := by
  unfold itemOfAtom
  by_cases hnil : isNil text = true
  · rw [if_pos hnil]
    exact .nil text h hnil
  · rw [if_neg hnil]
    exact .atom text h (Bool.eq_false_iff.mpr hnil)

theorem written_atoms (h : ∀ text ∈ texts, IsAtom text) :
    Written limit (texts.map itemOfAtom) (bytes ([' '].intercalate texts)) := by
  induction texts with
  | nil => exact .none
  | cons text texts ih =>
    obtain ⟨htext, htexts⟩ := List.forall_mem_cons.mp h
    cases texts with
    | nil =>
      rw [List.intercalate_singleton]
      exact written_itemOfAtom htext
    | cons next texts =>
      have hsplit : [' '].intercalate (text :: next :: texts) = text ++ ' ' :: [' '].intercalate (next :: texts) := by
        simp [List.intercalate_cons_cons]
      rw [hsplit, bytes_append, bytes_cons]
      exact .spaced (written_itemOfAtom htext) (ih htexts)

theorem isAtom_decimal (n : Nat) : IsAtom (decimal n) := by
  refine ⟨decimal_ne_nil, fun c hc => ?_⟩
  have hbounds := digit_bounds (isDigits_decimal c hc)
  have hne : ∀ d : Char, d.toNat < 48 ∨ 57 < d.toNat → c ≠ d := by
    rintro d hd rfl
    omega
  exact ⟨by omega, by omega, hne _ (by decide), hne _ (by decide), hne _ (by decide), hne _ (by decide)⟩

theorem isNil_decimal (n : Nat) : isNil (decimal n) = false := by
  have hdigits := @isDigits_decimal n
  have hne := @decimal_ne_nil n
  cases htext : decimal n with
  | nil => exact absurd htext hne
  | cons c text =>
    have hbounds := digit_bounds (hdigits c (htext ▸ List.mem_cons_self))
    apply Bool.eq_false_iff.mpr
    intro hnil
    have hupper : (c :: text).map Char.toUpper = "NIL".toList := of_decide_eq_true hnil
    have hfirst : c.toUpper = 'N' := (List.cons.inj hupper).1
    have htable : ∀ n < 128, 48 ≤ n ∧ n ≤ 57 → (Char.ofNat n).toUpper ≠ 'N' := by decide
    have hdigit := htable c.toNat (by omega) hbounds
    rw [Char.ofNat_toNat] at hdigit
    exact hdigit hfirst

def flagsItems (number uid : Nat) (flags : List (List Char)) : List Item :=
  [.atom (decimal number), .atom "FETCH".toList,
    .list [.atom "UID".toList, .atom (decimal uid), .atom "FLAGS".toList, .list (flags.map itemOfAtom)]]

theorem written_word (word : String) (h : (word.toList ≠ [] ∧ ∀ c ∈ word.toList, 0x20 < c.toNat ∧ c.toNat < 0x7f ∧
    c ≠ '(' ∧ c ≠ ')' ∧ c ≠ '{' ∧ c ≠ '"') ∧ isNil word.toList = false) :
    Written limit [.atom word.toList] (bytes word.toList) := .atom _ h.1 h.2

theorem written_flagsLine (number uid : Nat) (h : ∀ text ∈ texts, IsAtom text) :
    Written limit (flagsItems number uid texts) (bytes (flagsLine number uid texts)) := by
  have hnumber : ∀ n, Written limit [.atom (decimal n)] (bytes (decimal n)) := fun n =>
    .atom _ (isAtom_decimal n) (isNil_decimal n)
  have hlist : ∀ (items : List Item) (text : List Char), Written limit items (bytes text) →
      Written limit [.list items] (bytes ('(' :: (text ++ [')']))) := by
    intro items text hitems
    rw [bytes_cons, bytes_append]
    exact .list hitems
  have hspaced : ∀ (item next : Item) (items : List Item) (text text' : List Char), Written limit [item] (bytes text) →
      Written limit (next :: items) (bytes text') →
      Written limit (item :: next :: items) (bytes (text ++ ' ' :: text')) := by
    intro item next items text text' hitem hitems
    rw [bytes_append, bytes_cons]
    exact .spaced hitem hitems
  unfold flagsItems flagsLine
  apply hspaced _ _ _ _ _ (hnumber number)
  apply hspaced _ _ _ _ _ (written_word "FETCH" (by decide))
  apply hlist
  apply hspaced _ _ _ _ _ (written_word "UID" (by decide))
  apply hspaced _ _ _ _ _ (hnumber uid)
  apply hspaced _ _ _ _ _ (written_word "FLAGS" (by decide))
  exact hlist _ _ (written_atoms h)

theorem nesting_flagsItems (number uid : Nat) (texts : List (List Char)) :
    nestingAll (flagsItems number uid texts) ≤ maxDepth := by
  have hflat : nestingAll (texts.map itemOfAtom) = 0 := by
    induction texts with
    | nil => rfl
    | cons text texts ih =>
      rw [List.map_cons, nestingAll, ih, itemOfAtom]
      split
      · rfl
      · rfl
  simp only [flagsItems, nestingAll, Item.nesting, hflat]
  decide

theorem flagsOf_items (texts : List (List Char)) :
    flagsOf (.list (texts.map itemOfAtom)) = texts.filter fun text => !isNil text := by
  show ((texts.map itemOfAtom).filterMap Item.asAtom) = _
  induction texts with
  | nil => rfl
  | cons text texts ih =>
    by_cases hnil : isNil text = true
    · have hnone : (itemOfAtom text).asAtom = none := by rw [itemOfAtom, if_pos hnil]; rfl
      rw [List.map_cons, List.filterMap_cons_none hnone, ih, List.filter_cons_of_neg (by simp [hnil])]
    · have hsome : (itemOfAtom text).asAtom = some text := by rw [itemOfAtom, if_neg hnil]; rfl
      rw [List.map_cons, List.filterMap_cons_some hsome, ih, List.filter_cons_of_pos (by simp [hnil])]

variable (hasDownloadablePart : Item → Bool) (isSingleTextBody : List Char → Bool)

theorem rowOf_flagsItems (number uid : Nat) (huid : uid < 2 ^ 32) (texts : List (List Char)) :
    rowOf hasDownloadablePart isSingleTextBody (flagsItems number uid texts) =
      some { uid, flags := texts.filter (fun text => !isNil text), internalDate := none, size := none,
             envelope := none, hasAttachment := none, headerFields := none, modseq := none, gmail := {} } := by
  have hnumber : parseUnsigned 32 (decimal uid) = some uid := parseUnsigned_decimal huid
  have huidRead : ∀ row : Gathered, row.read hasDownloadablePart ("UID".toList.map Char.toUpper) (.atom (decimal uid)) =
      { row with uid := some uid } := by
    intro row
    rw [Gathered.read, if_pos (by decide)]
    show { row with uid := parseUnsigned 32 (decimal uid) } = _
    rw [hnumber]
  have hflagsRead : ∀ row : Gathered,
      row.read hasDownloadablePart ("FLAGS".toList.map Char.toUpper) (.list (texts.map itemOfAtom)) =
      { row with flags := texts.filter fun text => !isNil text } := by
    intro row
    rw [Gathered.read, if_neg (by decide), if_pos (by decide), flagsOf_items]
  have hgather : gather hasDownloadablePart { uid := none }
      [.atom "UID".toList, .atom (decimal uid), .atom "FLAGS".toList, .list (texts.map itemOfAtom)] =
      { uid := some uid, flags := texts.filter fun text => !isNil text } := by
    rw [gather_pair _ _ _ _ _ (by decide), gather_pair _ _ _ _ _ (by decide), huidRead, hflagsRead, gather]
  have hword : (Item.atom "FETCH".toList).isWord "FETCH" = true := by decide
  unfold flagsItems rowOf
  dsimp only
  rw [if_pos hword]
  show fetchRow hasDownloadablePart isSingleTextBody _ none = _
  unfold fetchRow
  rw [hgather]
  rfl

theorem parseFetch_flagsLine (number uid : Nat) (huid : uid < 2 ^ 32) (h : ∀ text ∈ texts, IsAtom text) :
    ∃ row, parseFetch hasDownloadablePart isSingleTextBody
        [bytes (flagsLine number uid texts) ++ [carriageReturn, lineFeed]] = .ok [row] ∧
      row.uid = uid ∧ row.flags = texts.filter (fun text => !isNil text) ∧ row.envelope = none := by
  have hends : ∀ b ∈ [carriageReturn, lineFeed], isLineEnd b = true := by decide
  have hwritten := @written_flagsLine 0 texts number uid h
  have hitems := itemsIn_eq (itemsOf_written hwritten (by decide) (nesting_flagsItems number uid texts) hends)
  have hrow := rowOf_flagsItems hasDownloadablePart isSingleTextBody number uid huid texts
  rw [parseFetch_one _ _ hitems, hrow]
  exact ⟨_, rfl, rfl, rfl, rfl⟩

end Listed

section Survive

variable (hasDownloadablePart : Item → Bool) (isSingleTextBody : List Char → Bool)

theorem parseFetch_keywords (number uid : Nat) (huid : uid < 2 ^ 32) (keywords : List Keyword) :
    ∃ row, parseFetch hasDownloadablePart isSingleTextBody
        [bytes (flagsLine number uid (keywords.map keywordToFlag)) ++ [carriageReturn, lineFeed]] = .ok [row] ∧
      row.uid = uid ∧ flagsToKeywords row.flags = keywords.toFinset.filter fun k => k.text ≠ "nil".toList := by
  have hatoms : ∀ text ∈ keywords.map keywordToFlag, IsAtom text := by
    intro text htext
    obtain ⟨k, -, rfl⟩ := List.mem_map.mp htext
    exact isAtom_keywordToFlag k
  obtain ⟨row, hparse, hrow, hflags, -⟩ :=
    parseFetch_flagsLine hasDownloadablePart isSingleTextBody number uid huid hatoms
  refine ⟨row, hparse, hrow, ?_⟩
  have hkept : (keywords.map keywordToFlag).filter (fun text => !isNil text) =
      (keywords.filter fun k => k.text ≠ "nil".toList).map keywordToFlag := by
    rw [List.filter_map]
    congr 1
    apply List.filter_congr
    intro k _
    have hnil := isNil_keywordToFlag k
    by_cases htext : k.text = "nil".toList
    · show (!isNil (keywordToFlag k)) = _
      rw [hnil.mpr htext, htext]
      rfl
    · have hpresent := Bool.eq_false_iff.mpr fun h => htext (hnil.mp h)
      show (!isNil (keywordToFlag k)) = _
      rw [hpresent]
      simpa using htext
  rw [hflags, hkept, flagsToKeywords_map, List.toFinset_filter]
  simp

/-- Keywords are the same after the server lists their flags exactly when none of them is spelled like the absence of
a value; no two of them ever have the same flag. -/
theorem keywords_survive_iff (number uid : Nat) (huid : uid < 2 ^ 32) (keywords : List Keyword) :
    ((∃ row, parseFetch hasDownloadablePart isSingleTextBody
        [bytes (flagsLine number uid (keywords.map keywordToFlag)) ++ [carriageReturn, lineFeed]] = .ok [row] ∧
      row.uid = uid ∧ flagsToKeywords row.flags = keywords.toFinset) ∧ Function.Injective keywordToFlag) ↔
      ∀ k ∈ keywords, k.text ≠ "nil".toList := by
  obtain ⟨row, hparse, hrow, hread⟩ := parseFetch_keywords hasDownloadablePart isSingleTextBody number uid huid keywords
  have hsame : keywords.toFinset.filter (fun k => k.text ≠ "nil".toList) = keywords.toFinset ↔
      ∀ k ∈ keywords, k.text ≠ "nil".toList := by
    rw [Finset.filter_eq_self]
    simp only [List.mem_toFinset]
  constructor
  · rintro ⟨⟨row', hparse', -, hread'⟩, -⟩
    rw [hparse] at hparse'
    obtain rfl := (List.cons.inj (Except.ok.inj hparse')).1
    exact hsame.mp (hread.symm.trans hread')
  · intro h
    exact ⟨⟨row, hparse, hrow, hread.trans (hsame.mpr h)⟩, keywordToFlag_injective⟩

def projectKeyword : Keyword where
  text := "project-x".toList
  nonempty := by decide
  short := by decide
  admitted := by decide
  lowered := by decide

theorem keywords_survive_iff_project : ((∃ row, parseFetch (fun _ => false) (fun _ => false)
        [bytes (flagsLine 12 7 ([.system .seen, projectKeyword].map keywordToFlag)) ++ [carriageReturn, lineFeed]] =
          .ok [row] ∧ row.uid = 7 ∧ flagsToKeywords row.flags = [Keyword.system .seen, projectKeyword].toFinset) ∧
      Function.Injective keywordToFlag) ↔ ∀ k ∈ [Keyword.system .seen, projectKeyword], k.text ≠ "nil".toList :=
  keywords_survive_iff (fun _ => false) (fun _ => false) 12 7 (by decide) _

def nilKeyword : Keyword where
  text := "nil".toList
  nonempty := by decide
  short := by decide
  admitted := by decide
  lowered := by decide

theorem nil_is_dropped : ∃ row, parseFetch (fun _ => false) (fun _ => false)
      [bytes (flagsLine 12 7 ([nilKeyword].map keywordToFlag)) ++ [carriageReturn, lineFeed]] = .ok [row] ∧
    flagsToKeywords row.flags ≠ [nilKeyword].toFinset := by
  obtain ⟨row, hparse, -, hread⟩ := parseFetch_keywords (fun _ => false) (fun _ => false) 12 7 (by decide) [nilKeyword]
  refine ⟨row, hparse, ?_⟩
  rw [hread]
  decide

end Survive


end Wire
end Imap
end SyncEngine
