import SyncEngine.Library.Delimited
import SyncEngine.Library.PrefixFree
import SyncEngine.Pool.Model

/-!
# The watcher of a mailbox

A call of `next_event` sends `IDLE` where the connection does not idle and reads to the continuation, then reads until a
line says that the mailbox changed, or until its keep-alive elapses; then it sends `DONE` and drains to the tagged
completion.  Each of the three stages has its own way with a line.

The bytes of the server come one at a time.  A keep-alive may elapse, a read may stall and the connection may close at
any byte; the read's future is dropped there with what it has of its line.
-/

namespace SyncEngine
namespace Watch

/-!
## One logical line of an IMAP response

A line ends at a line feed, unless it announces a literal there: then the bytes of the literal follow, and the
line goes on after them.  `Partial` is what a read has collected of its line, and it takes a byte at a time: how
the bytes were cut into reads makes no difference to it.
-/

def digitsValue (digits : List UInt8) : Nat :=
  digits.foldl (fun n b => n * 10 + (b.toNat - 48)) 0

/-- The length of the literal a piece of a line announces at its end, `{n}` or `{n+}`. -/
def trailingLiteralLen (line : List UInt8) : Option Nat := do
  let trimmed ← stripBack [10] line
  let trimmed := (stripBack [13] trimmed).getD trimmed
  let inside ← stripBack [125] trimmed
  let inside := (stripBack [43] inside).getD inside
  let digits := (inside.reverse.takeWhile (· ≠ 123)).reverse
  if 123 ∈ inside ∧ digits ≠ [] ∧ (digits.all fun b => 48 ≤ b && b ≤ 57) ∧ digitsValue digits < 2 ^ 64 then
    some (digitsValue digits)
  else none

def maxLiteral : Nat := 64 * 1024 * 1024

/-- What a read has of its line, where the piece it is in begins, and how much of a literal is to come. -/
structure Partial where
  line : List UInt8
  before : Nat
  literal : Nat
  deriving DecidableEq, Repr

inductive Pushed where
  | more (p : Partial)
  | done (line : List UInt8)
  deriving DecidableEq, Repr

namespace Partial

def empty : Partial := ⟨[], 0, 0⟩

def push (p : Partial) (b : UInt8) : Pushed :=
  let line := p.line ++ [b]
  if 0 < p.literal then
    .more ⟨line, if p.literal = 1 then line.length else p.before, p.literal - 1⟩
  else if b = 10 then
    match trailingLiteralLen (line.drop p.before) with
    | some len => .more ⟨line, line.length, len⟩
    | none => .done line
  else .more ⟨line, p.before, 0⟩

def Reads : Partial → List UInt8 → Partial → Prop
  | p, [], q => q = p
  | p, b :: bytes, q => ∃ p', p.push b = .more p' ∧ Reads p' bytes q

variable {p p' q q' : Partial} {b : UInt8} {bytes more line : List UInt8}

theorem push_more (h : p.push b = .more q) : q.line = p.line ++ [b] := by
  unfold push at h
  dsimp only at h
  split at h
  · cases h
    rfl
  · split at h
    · split at h
      · cases h
        rfl
      · cases h
    · cases h
      rfl

theorem push_done (h : p.push b = .done line) : line = p.line ++ [b] := by
  unfold push at h
  dsimp only at h
  split at h
  · cases h
  · split at h
    · split at h
      · cases h
      · cases h
        rfl
    · cases h

theorem reads_append : p.Reads (bytes ++ more) q ↔ ∃ m, p.Reads bytes m ∧ m.Reads more q := by
  induction bytes generalizing p with
  | nil => simp [Reads]
  | cons b bytes ih =>
    simp only [List.cons_append, Reads, ih]
    constructor
    · rintro ⟨p', hpush, m, hm, hq⟩
      exact ⟨m, ⟨p', hpush, hm⟩, hq⟩
    · rintro ⟨m, ⟨p', hpush, hm⟩, hq⟩
      exact ⟨p', hpush, m, hm, hq⟩

theorem Reads.eq (h : p.Reads bytes q) (h' : p.Reads bytes q') : q = q' := by
  induction bytes generalizing p with
  | nil => exact h.trans h'.symm
  | cons b bytes ih =>
    obtain ⟨p₁, hpush, hrest⟩ := h
    obtain ⟨p₂, hpush', hrest'⟩ := h'
    have heq : p₁ = p₂ := by
      rw [hpush] at hpush'
      exact Pushed.more.inj hpush'
    subst heq
    exact ih hrest hrest'

theorem Reads.snoc (h : p.Reads bytes q) (hpush : q.push b = .more q') : p.Reads (bytes ++ [b]) q' :=
  reads_append.mpr ⟨q, h, q', hpush, rfl⟩

end Partial

/-- A complete logical line: read from its first byte on, it ends at its last. -/
def Framed (line : List UInt8) : Prop :=
  ∃ bytes b p, line = bytes ++ [b] ∧ Partial.empty.Reads bytes p ∧ p.push b = .done line

theorem framed_prefixFree : PrefixFree Framed where
  eq_of_prefix := by
    rintro x y ⟨bytes, b, p, rfl, hreads, hdone⟩ ⟨bytes', b', p', rfl, hreads', -⟩ hleads
    by_cases hlen : (bytes ++ [b]).length = (bytes' ++ [b']).length
    · exact hleads.eq_of_length hlen
    · -- a line that ended earlier would have ended inside the other
      have hle := hleads.length_le
      have hin : bytes ++ [b] <+: bytes' := by
        refine List.prefix_of_prefix_length_le hleads (List.prefix_append bytes' [b']) ?_
        simp only [List.length_append, List.length_singleton] at hlen hle ⊢
        omega
      obtain ⟨rest, rfl⟩ := hin
      rw [List.append_assoc] at hreads'
      obtain ⟨m, hm, m', hpush, -⟩ := Partial.reads_append.mp hreads'
      rw [← hreads.eq hm, hdone] at hpush
      cases hpush
  ne_nil := by
    rintro x ⟨bytes, b, p, rfl, -, -⟩ hnil
    simp at hnil

open Pool (ImapError)

def stripAsciiPrefix (line : List UInt8) (pattern : List UInt8) : Option (List UInt8) :=
  (stripFront pattern line).map fun rest =>
    let rest := (stripBack [10] rest).getD rest
    (stripBack [13] rest).getD rest

/-- `* `, which begins an untagged response. -/
def star : List UInt8 := [42, 32]

/-- `+ `, which begins a continuation. -/
def plus : List UInt8 := [43, 32]

def lossy (line : List UInt8) : List Char := Utf8.lossy line

def trimmed (line : List UInt8) : String := String.ofList (trimChars (lossy line))

/-! ## What a line says -/

inductive IdleLine where
  | changed
  | informational
  | bye
  | unexpected
  deriving DecidableEq, Repr

def changeKinds : List String := ["EXISTS", "EXPUNGE", "FETCH", "UIDFETCH"]

def isChangeKind (kind : List Char) : Bool :=
  changeKinds.any fun name => Smtp.eqIgnoreAsciiCase kind name.toList

def classifyWords : List (List Char) → IdleLine
  | [] => .informational
  | first :: rest =>
    if Smtp.eqIgnoreAsciiCase first "BYE".toList then .bye
    else if Smtp.eqIgnoreAsciiCase first "VANISHED".toList then .changed
    else if (parseUnsigned 64 first).isSome && rest.head?.any isChangeKind then .changed
    else .informational

def classify (line : List UInt8) : IdleLine :=
  match stripAsciiPrefix line star with
  | none => .unexpected
  | some body => classifyWords (splitWhiteSpace (lossy body))

/-! ## The watcher -/

inductive WatchState where
  | notIdling
  | idling (tag : Nat)
  deriving DecidableEq, Repr

/-- Where a call of `next_event` stands. -/
inductive Stage where
  | returned
  | starting (tag : Nat) (sawChange : Bool)
  | waiting
  | draining (tag : Nat) (sawChange : Bool)
  deriving DecidableEq, Repr

structure Watcher where
  state : WatchState
  stage : Stage
  tag : Nat
  part : Partial
  closed : Bool
  deriving DecidableEq, Repr

def Watcher.start (tag : Nat) : Watcher := ⟨.notIdling, .returned, tag, .empty, false⟩

inductive Outcome where
  | changed
  | keepAlive
  | error (err : ImapError)
  | invalidState (detail : String)
  deriving DecidableEq, Repr

inductive Event where
  | call
  | byte (b : UInt8)
  | elapse
  | fail (closed : Bool) (detail : String)
  deriving DecidableEq, Repr

namespace Watcher

/-- The call returns an error.  Only an error of the wait itself ends the state of idling. -/
def fails (w : Watcher) (err : ImapError) : Watcher × Option Outcome :=
  ({ w with
      state := if w.stage = .waiting then .notIdling else w.state, stage := .returned, part := .empty },
    some (.error err))

def tagPrefix (tag : Nat) : List Char := 'a' :: decimal tag ++ [' ']

/-- The completion of `IDLE`, given the text after its tag. -/
def completes (w : Watcher) (sawChange : Bool) (rest : List Char) : Watcher × Option Outcome :=
  let text := trimEndChars rest
  let status := String.ofList ((text.takeWhile (· ≠ ' ')).map Char.toUpper)
  let detail := String.ofList ((text.dropWhile (· ≠ ' ')).drop 1)
  if status = "OK" then
    ({ w with state := .notIdling, stage := .returned },
      some (if sawChange then .changed else .keepAlive))
  else if status = "NO" then w.fails (.no detail)
  else if status = "BAD" then w.fails (.bad detail)
  else w.fails (.protocol s!"unknown IDLE completion {status}")

def onStarting (w : Watcher) (tag : Nat) (sawChange : Bool) (line : List UInt8) :
    Watcher × Option Outcome :=
  if (stripAsciiPrefix line plus).isSome then
    if sawChange then ({ w with state := .idling tag, stage := .returned }, some .changed)
    else ({ w with state := .idling tag, stage := .waiting }, none)
  else if (stripAsciiPrefix line star).isSome then
    ({ w with stage := .starting tag (sawChange || classify line = .changed) }, none)
  else w.fails (.protocol ("IDLE expected a continuation, got: " ++ trimmed line))

def onWaiting (w : Watcher) (line : List UInt8) : Watcher × Option Outcome :=
  match classify line with
  | .changed => ({ w with stage := .returned }, some .changed)
  | .informational => (w, none)
  | .bye => w.fails (.bye (trimmed line))
  | .unexpected => w.fails (.protocol ("unexpected line while idling: " ++ trimmed line))

def onDraining (w : Watcher) (tag : Nat) (sawChange : Bool) (line : List UInt8) :
    Watcher × Option Outcome :=
  match stripFront (tagPrefix tag) (lossy line) with
  | some rest => w.completes sawChange rest
  | none =>
    match classify line with
    | .changed => ({ w with stage := .draining tag true }, none)
    | .bye => w.fails (.bye (trimmed line))
    | .informational | .unexpected => (w, none)

def onLine (w : Watcher) (line : List UInt8) : Watcher × Option Outcome :=
  match w.stage with
  | .returned => (w, none)
  | .starting tag sawChange => w.onStarting tag sawChange line
  | .waiting => w.onWaiting line
  | .draining tag sawChange => w.onDraining tag sawChange line

/-- What a step leaves: the watcher, the line it read to its end, and what the call returned. -/
structure Left where
  watcher : Watcher
  line : Option (List UInt8)
  outcome : Option Outcome
  deriving DecidableEq, Repr

def step (w : Watcher) : Event → Option Left
  | .call =>
    match w.stage, w.state with
    | .returned, .notIdling =>
      some ⟨{ w with tag := w.tag + 1, stage := .starting (w.tag + 1) false, part := .empty }, none, none⟩
    | .returned, .idling _ => some ⟨{ w with stage := .waiting, part := .empty }, none, none⟩
    | _, _ => none
  | .byte b =>
    if w.closed ∨ w.stage = .returned then none
    else
      match w.part.push b with
      | .more p =>
        if maxLiteral < p.literal then
          let (w', outcome) := w.fails (.protocol
            ("server announced a " ++ toString p.literal ++ "-byte literal exceeding the " ++
              toString maxLiteral ++ "-byte cap"))
          some ⟨w', none, outcome⟩
        else some ⟨{ w with part := p }, none, none⟩
      | .done line =>
        let (w', outcome) := { w with part := .empty }.onLine line
        some ⟨w', some line, outcome⟩
  | .elapse =>
    match w.stage, w.state with
    | .waiting, .idling tag => some ⟨{ w with stage := .draining tag false, part := .empty }, none, none⟩
    | .waiting, .notIdling =>
      some ⟨{ w with stage := .returned, part := .empty }, none,
        some (.invalidState "watch lost its idle state")⟩
    | _, _ => none
  | .fail closed detail =>
    if w.stage = .returned then none
    else
      let (w', outcome) := w.fails (.io detail)
      some ⟨{ w' with closed := w.closed || closed }, none, outcome⟩

end Watcher

/-! ## Runs -/

/-- A step as it is told: what came, the line that was read with it, and what the call returned. -/
structure Told where
  event : Event
  line : Option (List UInt8)
  outcome : Option Outcome
  deriving DecidableEq, Repr

def Watcher.Steps (w : Watcher) (t : Told) (w' : Watcher) : Prop :=
  w.step t.event = some ⟨w', t.line, t.outcome⟩

def bytes (ts : List Told) : List UInt8 :=
  ts.flatMap fun t => match t.event with
    | .byte b => [b]
    | _ => []

def linesRead (ts : List Told) : List (List UInt8) := ts.filterMap Told.line

def Quiet (ts : List Told) : Prop := ∀ t ∈ ts, t.outcome = none ∨ t.outcome = some .keepAlive

end Watch

namespace Watch

/-!
## The lines that say a mailbox changed

`Change` is the grammar of those lines: a number and `EXISTS`, `EXPUNGE`, `FETCH` or `UIDFETCH`, or `VANISHED`,
in either case of letters, with whatever follows on the line.  The watcher classifies each of them as a change.
-/

def ascii (cs : List Char) : List UInt8 := cs.map fun c => UInt8.ofNat c.toNat

/-- A word ends here: with a space or with the line. -/
def Ends : List UInt8 → Prop
  | [] => True
  | b :: _ => b = 32 ∨ b = 13 ∨ b = 10

inductive Change : List UInt8 → Prop
  | numbered {digits kind : List Char} {name : String} {rest : List UInt8} (hne : digits ≠ [])
      (hdigits : ∀ c ∈ digits, c.isDigit = true) (hsize : Nat.ofDigitChars 10 digits 0 < 2 ^ 32)
      (hname : name ∈ changeKinds) (hkind : Smtp.eqIgnoreAsciiCase kind name.toList = true)
      (hrest : Ends rest) : Change (star ++ (ascii digits ++ 32 :: (ascii kind ++ rest)))
  | vanished {kind : List Char} {rest : List UInt8}
      (hkind : Smtp.eqIgnoreAsciiCase kind "VANISHED".toList = true) (hrest : Ends rest) :
      Change (star ++ (ascii kind ++ rest))

/-! ## Reading text back from its bytes -/

theorem lossy_ascii_append {cs : List Char} (h : ∀ c ∈ cs, c.toNat < 128) (rest : List UInt8) :
    lossy (ascii cs ++ rest) = cs ++ lossy rest := by
  induction cs with
  | nil => rfl
  | cons c cs ih =>
    have hc : c.toNat < 128 := h c List.mem_cons_self
    have hih : lossy (ascii cs ++ rest) = cs ++ lossy rest := ih fun d hd => h d (List.mem_cons_of_mem c hd)
    have hstep := Utf8.lossy_encode c (ascii cs ++ rest)
    rw [Utf8.encode_of_lt hc] at hstep
    exact hstep.trans (congrArg (c :: ·) hih)

variable {text rest : List UInt8}

theorem stripBack_append {c : UInt8} (h : text.getLast? ≠ some c)
    (hrest : Ends rest) : ∃ rest', (stripBack [c] (text ++ rest)).getD (text ++ rest) = text ++ rest' ∧ Ends rest' := by
  unfold stripBack
  by_cases hsuffix : [c] <:+ text ++ rest
  · rw [if_pos hsuffix]
    rcases rest.eq_nil_or_concat with rfl | ⟨init, d, rfl⟩
    · obtain ⟨init, hinit⟩ := hsuffix
      rw [List.append_nil] at hinit
      rw [← hinit] at h
      simp at h
    · refine ⟨init, ?_, ?_⟩
      · simp [← List.append_assoc]
      · cases init with
        | nil => trivial
        | cons b init => exact hrest
  · rw [if_neg hsuffix]
    exact ⟨rest, rfl, hrest⟩

theorem stripAsciiPrefix_star (hlf : text.getLast? ≠ some 10) (hcr : text.getLast? ≠ some 13) (hrest : Ends rest) :
    ∃ rest', stripAsciiPrefix (star ++ (text ++ rest)) star = some (text ++ rest') ∧ Ends rest' := by
  obtain ⟨rest₁, h₁, hends₁⟩ := stripBack_append hlf hrest
  obtain ⟨rest₂, h₂, hends₂⟩ := stripBack_append hcr hends₁
  refine ⟨rest₂, ?_, hends₂⟩
  have hfront : stripFront star (star ++ (text ++ rest)) = some (text ++ rest) := by
    unfold stripFront
    rw [if_pos (List.prefix_append _ _), List.drop_left]
  simp only [stripAsciiPrefix, hfront, Option.map_some, h₁, h₂]

variable {word : List Char}

theorem splitWhiteSpace_word (hne : word ≠ []) (hword : ∀ c ∈ word, isWhiteSpace c = false) (hrest : Ends rest) :
    ∃ words, splitWhiteSpace (word ++ lossy rest) = word :: words := by
  cases rest with
  | nil =>
    refine ⟨[], ?_⟩
    show splitWhiteSpace (word ++ []) = _
    rw [List.append_nil, splitWhiteSpace, List.splitOnP_eq_singleton hword]
    simp [hne]
  | cons b rest =>
    have single : ∀ c : Char, c.toNat < 128 → lossy (UInt8.ofNat c.toNat :: rest) = c :: lossy rest :=
      fun c hc => lossy_ascii_append (List.forall_mem_singleton.mpr hc) rest
    have hsep : ∃ c cs, lossy (b :: rest) = c :: cs ∧ isWhiteSpace c = true := by
      rcases hrest with rfl | rfl | rfl
      · exact ⟨' ', lossy rest, single ' ' (by decide), by decide⟩
      · exact ⟨'\r', lossy rest, single '\r' (by decide), by decide⟩
      · exact ⟨'\n', lossy rest, single '\n' (by decide), by decide⟩
    obtain ⟨c, cs, hlossy, hc⟩ := hsep
    refine ⟨splitWhiteSpace cs, ?_⟩
    rw [hlossy, splitWhiteSpace, List.splitOnP_append_cons_of_forall_mem hword c hc]
    simp [hne, splitWhiteSpace]

/-! ## Letters and digits -/

variable {c : Char}

theorem toNat_of_isAlpha (h : c.isAlpha = true) : 65 ≤ c.toNat ∧ c.toNat ≤ 90 ∨ 97 ≤ c.toNat ∧ c.toNat ≤ 122 := by
  simp only [Char.isAlpha, Char.isUpper, Char.isLower, Bool.or_eq_true, Bool.and_eq_true,
    decide_eq_true_eq, UInt32.le_iff_toNat_le] at h
  exact h

theorem toNat_of_isDigit (h : c.isDigit = true) : 48 ≤ c.toNat ∧ c.toNat ≤ 57 := by
  simp only [Char.isDigit, Bool.and_eq_true, decide_eq_true_eq, UInt32.le_iff_toNat_le] at h
  exact h

theorem isWhiteSpace_eq_false (h : 33 ≤ c.toNat) (h' : c.toNat ≤ 126) : isWhiteSpace c = false := by
  simp only [isWhiteSpace, Bool.or_eq_false_iff, Bool.and_eq_false_iff, decide_eq_false_iff_not, beq_eq_false_iff_ne]
  omega

/-- A word equal to a keyword but for the case of its letters is made of letters. -/
theorem isAlpha_of_eqIgnoreAsciiCase {name : List Char} (hname : ∀ d ∈ name, d.toLower.isAlpha = true)
    (h : Smtp.eqIgnoreAsciiCase word name = true) : ∀ c ∈ word, c.isAlpha = true := by
  intro c hc
  have heq : word.map Char.toLower = name.map Char.toLower := by simpa [Smtp.eqIgnoreAsciiCase] using h
  by_cases hupper : c.isUpper = true
  · simp [Char.isAlpha, hupper]
  · have hmem : c.toLower ∈ name.map Char.toLower := heq ▸ List.mem_map_of_mem hc
    obtain ⟨d, hd, hlower⟩ := List.mem_map.mp hmem
    have hself : c.toLower = c := by
      refine dif_neg fun hrange => hupper ?_
      simpa [Char.isUpper] using hrange
    rw [← hself, ← hlower]
    exact hname d hd

variable {b : UInt8}

theorem last_ascii (hne : word ≠ []) (h : ∀ c ∈ word, UInt8.ofNat c.toNat ≠ b) (text : List UInt8) :
    (text ++ ascii word).getLast? ≠ some b := by
  intro hlast
  have hword : (ascii word).getLast? = some b := by
    rw [List.getLast?_append_of_ne_nil _ (by simpa [ascii] using hne)] at hlast
    exact hlast
  obtain ⟨c, hc, hb⟩ := List.mem_map.mp (List.mem_of_getLast? hword)
  exact h c hc hb

theorem ofNat_ne_of_isAlpha (h : c.isAlpha = true) (hb : b.toNat < 65) : UInt8.ofNat c.toNat ≠ b := by
  intro heq
  have hrange := toNat_of_isAlpha h
  have hnat : c.toNat % 256 = b.toNat := by rw [← heq, UInt8.toNat_ofNat']
  omega

/-! ## Every change is classified as one -/

variable {kind : List Char}

theorem classify_vanished (hkind : Smtp.eqIgnoreAsciiCase kind "VANISHED".toList = true) (hrest : Ends rest) :
    classify (star ++ (ascii kind ++ rest)) = .changed := by
  have halpha := isAlpha_of_eqIgnoreAsciiCase (by decide) hkind
  have hne : kind ≠ [] := by
    intro hnil
    rw [hnil] at hkind
    exact absurd hkind (by decide)
  have hlast : ∀ b : UInt8, b.toNat < 65 → (ascii kind).getLast? ≠ some b := fun b hb =>
    last_ascii hne (fun c hc => ofNat_ne_of_isAlpha (halpha c hc) hb) []
  obtain ⟨rest', hstrip, hends⟩ := stripAsciiPrefix_star (hlast 10 (by decide)) (hlast 13 (by decide)) hrest
  have hlossy : lossy (ascii kind ++ rest') = kind ++ lossy rest' := by
    refine lossy_ascii_append (fun c hc => ?_) rest'
    have hrange := toNat_of_isAlpha (halpha c hc)
    omega
  obtain ⟨words, hwords⟩ := splitWhiteSpace_word hne (fun c hc => by
    have hrange := toNat_of_isAlpha (halpha c hc)
    exact isWhiteSpace_eq_false (by omega) (by omega)) hends
  have hbye : Smtp.eqIgnoreAsciiCase kind "BYE".toList = false := by
    simp only [Smtp.eqIgnoreAsciiCase, decide_eq_true_eq] at hkind
    simp only [Smtp.eqIgnoreAsciiCase, hkind]
    decide
  simp only [classify, hstrip, hlossy, hwords, classifyWords, hbye, hkind]
  rfl

theorem classify_numbered {digits : List Char} {name : String} (hne : digits ≠ [])
    (hdigits : ∀ c ∈ digits, c.isDigit = true) (hsize : Nat.ofDigitChars 10 digits 0 < 2 ^ 32)
    (hname : name ∈ changeKinds) (hkind : Smtp.eqIgnoreAsciiCase kind name.toList = true)
    (hrest : Ends rest) :
    classify (star ++ (ascii digits ++ 32 :: (ascii kind ++ rest))) = .changed := by
  have hletters : ∀ n ∈ changeKinds, ∀ d ∈ n.toList, d.toLower.isAlpha = true := by decide
  have halpha := isAlpha_of_eqIgnoreAsciiCase (hletters name hname) hkind
  have hnames : ∀ n ∈ changeKinds, Smtp.eqIgnoreAsciiCase [] n.toList = false := by decide
  have hkne : kind ≠ [] := by
    intro hnil
    rw [hnil, hnames name hname] at hkind
    cases hkind
  have hbounds : ∀ c ∈ digits, 48 ≤ c.toNat ∧ c.toNat ≤ 57 := fun c hc => toNat_of_isDigit (hdigits c hc)
  have hsplit : ascii digits ++ 32 :: (ascii kind ++ rest) = (ascii (digits ++ [' ']) ++ ascii kind) ++ rest := by
    simp [ascii]
  have hlast : ∀ b : UInt8, b.toNat < 65 → (ascii (digits ++ [' ']) ++ ascii kind).getLast? ≠ some b :=
    fun b hb => last_ascii hkne (fun c hc => ofNat_ne_of_isAlpha (halpha c hc) hb) _
  obtain ⟨rest', hstrip, hends⟩ := stripAsciiPrefix_star (hlast 10 (by decide)) (hlast 13 (by decide)) hrest
  have hlossy : lossy ((ascii (digits ++ [' ']) ++ ascii kind) ++ rest') = digits ++ ' ' :: (kind ++ lossy rest') := by
    have hfirst : ∀ c ∈ digits ++ [' '], c.toNat < 128 := by
      intro c hc
      rcases List.mem_append.mp hc with hc | hc
      · have hrange := hbounds c hc
        omega
      · rw [List.mem_singleton.mp hc]
        decide
    have hsecond : ∀ c ∈ kind, c.toNat < 128 := by
      intro c hc
      have hrange := toNat_of_isAlpha (halpha c hc)
      omega
    rw [List.append_assoc, lossy_ascii_append hfirst, lossy_ascii_append hsecond]
    simp
  obtain ⟨words, hwords⟩ := splitWhiteSpace_word hkne (fun c hc => by
    have hrange := toNat_of_isAlpha (halpha c hc)
    exact isWhiteSpace_eq_false (by omega) (by omega)) hends
  have hspace : ∀ c ∈ digits, isWhiteSpace c = false := by
    intro c hc
    have hrange := hbounds c hc
    exact isWhiteSpace_eq_false (by omega) (by omega)
  have hall : splitWhiteSpace (digits ++ ' ' :: (kind ++ lossy rest')) = digits :: kind :: words := by
    rw [splitWhiteSpace, List.splitOnP_append_cons_of_forall_mem hspace ' ' (by decide)]
    rw [List.filter_cons_of_pos (by simpa using hne)]
    exact congrArg _ hwords
  -- a number is neither of the two words that are looked for first
  have hword : ∀ n : String, (∀ d ∈ n.toList, d.toLower.isAlpha = true) →
      Smtp.eqIgnoreAsciiCase digits n.toList = false := by
    intro n hn
    rw [Bool.eq_false_iff]
    intro heq
    obtain ⟨c, hc⟩ := List.exists_mem_of_ne_nil digits hne
    have hletter := toNat_of_isAlpha (isAlpha_of_eqIgnoreAsciiCase hn heq c hc)
    have hrange := hbounds c hc
    omega
  have hnumber : (parseUnsigned 64 digits).isSome = true := by
    have hplus : stripFront ['+'] digits = none := by
      refine if_neg fun hleads => ?_
      have hmem : '+' ∈ digits := hleads.subset (List.mem_singleton_self _)
      exact absurd (hdigits '+' hmem) (by decide)
    have hproper : ¬(digits = [] ∨ ¬digits.all Char.isDigit = true) := by
      simp only [not_or, not_not]
      exact ⟨hne, List.all_eq_true.mpr hdigits⟩
    have hsmall : Nat.ofDigitChars 10 digits 0 < 2 ^ 64 := by omega
    simp only [parseUnsigned, hplus, Option.getD_none, if_neg hproper, if_pos hsmall, Option.isSome_some]
  have hchange : isChangeKind kind = true := by
    simp only [isChangeKind, List.any_eq_true]
    exact ⟨name, hname, hkind⟩
  rw [hsplit]
  simp only [classify, hstrip, hlossy, hall, classifyWords, hword "BYE" (by decide),
    hword "VANISHED" (by decide), hnumber, List.head?_cons, Option.any_some, hchange, Bool.false_eq_true,
    if_false, Bool.and_self, if_true]

theorem Change.classify {line : List UInt8} (h : Change line) : classify line = .changed := by
  cases h with
  | numbered hne hdigits hsize hname hkind hrest =>
    exact classify_numbered hne hdigits hsize hname hkind hrest
  | vanished hkind hrest => exact classify_vanished hkind hrest

end Watch
end SyncEngine
