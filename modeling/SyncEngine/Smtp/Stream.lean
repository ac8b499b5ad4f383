import Mathlib
import SyncEngine.Library.Dialogue
import SyncEngine.Library.Whitespace

/-!
# SMTP framing

What a submission does on its connection, one call at a time: it writes a command line, the message,
or the line that ends the message, and reads a line.  Between the last two stands the record of the
hand-over.  The server, the network and the record together are the peer: a write may fail with any
part of it sent, a read may give any line, the end of the stream or an error.
-/

namespace SyncEngine
namespace Smtp

open Dialogue

inductive Command where
  | ehlo (domain : String)
  | helo (domain : String)
  | auth (mechanism initial : String)
  | cancel (response : String)
  | mailFrom (address : String)
  | rcptTo (address : String)
  | data
  | quit
  deriving DecidableEq, Repr

def Command.text : Command → String
  | .ehlo domain => s!"EHLO {domain}"
  | .helo domain => s!"HELO {domain}"
  | .auth mechanism initial => s!"AUTH {mechanism} {initial}"
  | .cancel response => response
  | .mailFrom address => s!"MAIL FROM:<{address}>"
  | .rcptTo address => s!"RCPT TO:<{address}>"
  | .data => "DATA"
  | .quit => "QUIT"

inductive Request where
  | line (command : Command)
  | body (bytes : List UInt8)
  | terminator
  | readLine
  | commit
  deriving DecidableEq, Repr

def Request.wire : Request → List UInt8
  | .line command => command.text.toUTF8.toList ++ [13, 10]
  | .body bytes => bytes
  | .terminator => [46, 13, 10]
  | .readLine => []
  | .commit => []

/-- The answer to a read is the line with its end, empty at the end of the stream; an error carries
its text. -/
def Answer : Request → Type
  | .readLine => Except String String
  | .line _ | .body _ | .terminator | .commit => Except String Unit

abbrev Step : Type := Exchange Request Answer

inductive ImapError where
  | io (detail : String)
  | auth (detail : String)
  | rateLimited (detail : String)
  | protocol (detail : String)
  deriving DecidableEq, Repr

abbrev Conversation (α : Type) : Type := ExceptT ImapError (Dialogue Request Answer) α

/-! ## Reading a reply -/

/-- Cuts the text before its byte `n`, unless that byte is inside a character. -/
def splitBytes : List Char → Nat → Option (List Char × List Char)
  | cs, 0 => some ([], cs)
  | [], _ + 1 => none
  | c :: cs, n + 1 =>
    if c.utf8Size ≤ n + 1 then
      (splitBytes cs (n + 1 - c.utf8Size)).map fun (before, after) => (c :: before, after)
    else none

def parseDigits : List Char → Option Nat
  | [] => none
  | cs => cs.foldl (fun n c => n.bind fun n =>
      if c.isDigit then some (10 * n + (c.toNat - '0'.toNat)) else none) (some 0)

/-- An unsigned number may carry a plus sign. -/
def parseCode : List Char → Option Nat
  | '+' :: cs => parseDigits cs
  | cs => parseDigits cs

/-- One line of a reply. -/
structure ReplyLine where
  code : Nat
  text : String
  more : Bool
  deriving DecidableEq, Repr

def readReplyLine (line : String) : Except ImapError ReplyLine :=
  let trimmed := trimEndChars line.toList
  match (splitBytes trimmed 3).bind fun (code, rest) => (parseCode code).map fun n => (n, rest) with
  | none => .error (.protocol s!"malformed SMTP reply: {String.ofList trimmed}")
  | some (code, rest) =>
    .ok { code
          text := String.ofList (((splitBytes trimmed 4).map Prod.snd).getD [])
          more := rest.head? = some '-' }

def maxReplyLines : Nat := 256

def readLine : Dialogue Request Answer (Except String String) := request Request.readLine

/-- Reads the rest of a reply, of at most `n` lines more. -/
def readReplyFrom : Nat → List String → Conversation (Nat × List String)
  | 0, _ => throw (.protocol "SMTP multiline reply exceeded the line cap")
  | n + 1, lines => do
    match ← (readLine : Dialogue Request Answer _) with
    | .error detail => throw (.io detail)
    | .ok line =>
      if line = "" then throw (.io "SMTP connection closed")
      else
        match readReplyLine line with
        | .error e => throw e
        | .ok reply =>
          if reply.more then readReplyFrom n (lines ++ [reply.text])
          else return (reply.code, lines ++ [reply.text])

def readReplyLines : Conversation (Nat × List String) := readReplyFrom maxReplyLines []

def readReply : Conversation (Nat × String) := do
  let (code, lines) ← readReplyLines
  return (code, " ".intercalate lines)

/-! ## Writing -/

def attempt (write : Dialogue Request Answer (Except String Unit)) : Conversation Unit := do
  match ← (write : Dialogue Request Answer _) with
  | .error detail => throw (.io detail)
  | .ok _ => return ()

def writeLine (command : Command) : Conversation Unit := attempt (request (Request.line command))

/-- The lines of a message, each with its line feed; the last one may have none. -/
def byteLines : List UInt8 → List (List UInt8)
  | [] => []
  | b :: bs =>
    if b = 10 then [b] :: byteLines bs
    else match byteLines bs with
      | [] => [[b]]
      | l :: ls => (b :: l) :: ls

def stuffLine (line : List UInt8) : List UInt8 :=
  if line.head? = some 46 then 46 :: line else line

def dotStuff (message : List UInt8) : List UInt8 := (byteLines message).flatMap stuffLine

def writeBody (message : List UInt8) : Conversation Unit :=
  attempt (request (Request.body (dotStuff message)))

def writeTerminator : Dialogue Request Answer (Except String Unit) :=
  request Request.terminator

/-- Records that the message may go out from here on. -/
def commit : Dialogue Request Answer (Except String Unit) := request Request.commit

/-! ## A message never ends itself -/

variable {body : List UInt8}

theorem byteLines_line (h : 10 ∉ body) (rest : List UInt8) :
    byteLines (body ++ 10 :: rest) = (body ++ [10]) :: byteLines rest := by
  induction body with
  | nil => simp [byteLines]
  | cons b body ih =>
    have hb : b ≠ 10 := fun e => h (e ▸ List.mem_cons_self)
    have hbody : 10 ∉ body := fun e => h (List.mem_cons_of_mem b e)
    simp [byteLines, hb, ih hbody]

theorem byteLines_last (h : 10 ∉ body) (hne : body ≠ []) : byteLines body = [body] := by
  induction body with
  | nil => exact absurd rfl hne
  | cons b body ih =>
    have hb : b ≠ 10 := fun e => h (e ▸ List.mem_cons_self)
    have hbody : 10 ∉ body := fun e => h (List.mem_cons_of_mem b e)
    by_cases hnil : body = []
    · simp [byteLines, hb, hnil]
    · simp [byteLines, hb, ih hbody hnil]

theorem stuffLine_append (body tail : List UInt8) (hne : body ≠ []) :
    stuffLine (body ++ tail) = stuffLine body ++ tail := by
  cases body with
  | nil => exact absurd rfl hne
  | cons b body =>
    by_cases hb : b = 46
    · simp [stuffLine, hb]
    · simp [stuffLine, hb]

theorem lineFeed_notMem_stuffLine (h : 10 ∉ body) : 10 ∉ stuffLine body := by
  by_cases hb : body.head? = some 46
  · simp [stuffLine, hb, h]
  · simp [stuffLine, hb, h]

theorem stuffLine_ne_nil (h : body ≠ []) : stuffLine body ≠ [] := by
  by_cases hb : body.head? = some 46
  · simp [stuffLine, hb]
  · simp [stuffLine, hb, h]

theorem dotStuff_line (h : 10 ∉ body) : ∃ body', 10 ∉ body' ∧ stuffLine (body ++ [10]) = body' ++ [10] ∧
      ∀ rest, dotStuff (body ++ 10 :: rest) = body' ++ 10 :: dotStuff rest := by
  have hstuff : ∃ body', stuffLine (body ++ [10]) = body' ++ [10] ∧ 10 ∉ body' := by
    by_cases hnil : body = []
    · exact ⟨[], by simp [hnil, stuffLine], by simp⟩
    · exact ⟨stuffLine body, stuffLine_append body [10] hnil, lineFeed_notMem_stuffLine h⟩
  obtain ⟨body', hbody', hfree⟩ := hstuff
  refine ⟨body', hfree, hbody', fun rest => ?_⟩
  rw [dotStuff, byteLines_line h, List.flatMap_cons, hbody', dotStuff]
  simp

variable (message : List UInt8)

theorem byteLines_dotStuff : byteLines (dotStuff message) = (byteLines message).map stuffLine := by
  induction hn : message.length using Nat.strong_induction_on generalizing message with
  | _ n ih =>
    by_cases hfeed : (10 : UInt8) ∈ message
    · obtain ⟨body, rest, rfl, hbody⟩ := List.eq_append_cons_of_mem hfeed
      have hrest := ih rest.length (by simp at hn; omega) rest rfl
      obtain ⟨body', hfree, hbody', hdot⟩ := dotStuff_line hbody
      rw [hdot, byteLines_line hfree, hrest, byteLines_line hbody, List.map_cons, hbody']
    · by_cases hnil : message = []
      · subst hnil
        rfl
      · have hdot : dotStuff message = stuffLine message := by
          rw [dotStuff, byteLines_last hfeed hnil]
          simp
        rw [hdot, byteLines_last hfeed hnil, byteLines_last (lineFeed_notMem_stuffLine hfeed) (stuffLine_ne_nil hnil)]
        rfl

variable (line : List UInt8)

theorem stuffLine_ne_terminator : stuffLine line ≠ Request.terminator.wire := by
  intro h
  rw [Request.wire] at h
  by_cases hb : line.head? = some 46
  · rw [stuffLine, if_pos hb, List.cons.injEq] at h
    rw [h.2] at hb
    simp at hb
  · rw [stuffLine, if_neg hb] at h
    rw [h] at hb
    simp at hb

theorem terminator_notMem_dotStuff : Request.terminator.wire ∉ byteLines (dotStuff message) := by
  rw [byteLines_dotStuff]
  intro h
  obtain ⟨line, -, hline⟩ := List.mem_map.mp h
  exact stuffLine_ne_terminator line hline

/-! ## What the other side receives -/

def unstuffLine (line : List UInt8) : List UInt8 := if line.head? = some 46 then line.drop 1 else line

/-- The message on some lines, which the first line that is a dot alone ends, and the lines after it. -/
def receive : List (List UInt8) → Option (List UInt8 × List (List UInt8))
  | [] => none
  | line :: lines =>
    if line = Request.terminator.wire then some ([], lines)
    else (receive lines).map fun (message, rest) => (unstuffLine line ++ message, rest)

def received (wire : List UInt8) : Option (List UInt8 × List UInt8) :=
  (receive (byteLines wire)).map fun (message, rest) => (message, rest.flatten)

theorem flatten_byteLines (bytes : List UInt8) : (byteLines bytes).flatten = bytes := by
  induction bytes with
  | nil => rfl
  | cons b bytes ih =>
    rw [byteLines]
    by_cases hb : b = 10
    · rw [if_pos hb, List.flatten_cons, ih]
      rfl
    · rw [if_neg hb]
      cases hlines : byteLines bytes with
      | nil =>
        rw [hlines] at ih
        rw [← ih]
        rfl
      | cons l ls =>
        rw [hlines] at ih
        rw [← ih]
        rfl

theorem byteLines_dotStuff_append {message : List UInt8} (h : message.getLast? = some 10) (wire : List UInt8) :
    byteLines (dotStuff message ++ wire) = (byteLines message).map stuffLine ++ byteLines wire := by
  induction hn : message.length using Nat.strong_induction_on generalizing message with
  | _ n ih =>
    obtain ⟨body, rest, rfl, hbody⟩ := List.eq_append_cons_of_mem (List.mem_of_getLast? h)
    obtain ⟨body', hfree, hbody', hdot⟩ := dotStuff_line hbody
    rw [hdot, List.append_assoc, List.cons_append, byteLines_line hfree, byteLines_line hbody, List.map_cons, hbody',
      List.cons_append]
    by_cases hnil : rest = []
    · subst hnil
      rfl
    · have hlast : rest.getLast? = some 10 := by
        cases rest with
        | nil => exact absurd rfl hnil
        | cons b rest => simpa using h
      rw [ih rest.length (by simp at hn; omega) hlast rfl]

theorem unstuffLine_stuffLine : unstuffLine (stuffLine line) = line := by
  by_cases hb : line.head? = some 46
  · rw [stuffLine, if_pos hb, unstuffLine, if_pos (by rfl)]
    rfl
  · rw [stuffLine, if_neg hb, unstuffLine, if_neg hb]

theorem received_dotStuff {message : List UInt8} (h : message.getLast? = some 10) (rest : List UInt8) :
    received (dotStuff message ++ Request.terminator.wire ++ rest) = some (message, rest) := by
  have hstuffed : ∀ lines after : List (List UInt8),
      receive (lines.map stuffLine ++ Request.terminator.wire :: after) = some (lines.flatten, after) := by
    intro lines after
    induction lines with
    | nil => rw [List.map_nil, List.nil_append, receive, if_pos rfl, List.flatten_nil]
    | cons line lines ih =>
      rw [List.map_cons, List.cons_append, receive, if_neg (stuffLine_ne_terminator line), ih, Option.map_some,
        unstuffLine_stuffLine, List.flatten_cons]
  have hdot : byteLines (Request.terminator.wire ++ rest) = Request.terminator.wire :: byteLines rest :=
    @byteLines_line [46, 13] (by decide) rest
  rw [received, List.append_assoc, byteLines_dotStuff_append h, hdot, hstuffed, Option.map_some, flatten_byteLines]
  show some (message, (byteLines rest).flatten) = _
  rw [flatten_byteLines]

/-! ## What was read on a connection -/

/-- The code of a reply, on the line that ends it. -/
def closes : Step → Option Nat
  | ⟨.readLine, answer⟩ =>
    match (answer : Except String String) with
    | .error _ => none
    | .ok line =>
      match readReplyLine line with
      | .error _ => none
      | .ok reply => if reply.more then none else some reply.code
  | _ => none

def answering (q : Request) (x : Step) : Request :=
  match x.request with
  | .readLine | .commit => q
  | r => r

def asked (q : Request) (t : List Step) : Request := t.foldl answering q

def replies (q : Request) : List Step → List (Request × Nat)
  | [] => []
  | x :: t =>
    match closes x with
    | some code => (q, code) :: replies q t
    | none => replies (answering q x) t

theorem answering_of_closes {x : Step} {code : Nat} (h : closes x = some code) (q : Request) : answering q x = q := by
  obtain ⟨r, a⟩ := x
  cases r with
  | readLine => rfl
  | _ => cases h

theorem replies_append (q : Request) (t t' : List Step) :
    replies q (t ++ t') = replies q t ++ replies (asked q t) t' := by
  induction t generalizing q with
  | nil => rfl
  | cons x t ih =>
    cases h : closes x with
    | none =>
      simp only [List.cons_append, replies, h]
      exact ih (answering q x)
    | some code =>
      simp only [List.cons_append, replies, h, asked, List.foldl_cons, answering_of_closes h]
      rw [ih q]
      rfl

/-- Reading a whole reply leaves one reply behind, with its code; a reply that could not be read
leaves none. -/
structure Reads (t : List Step) (code : Option Nat) : Prop where
  only : ∀ x ∈ t, x.request = .readLine
  replies : ∀ q, replies q t = (code.map (q, ·)).toList

namespace Reads

theorem cons {x : Step} {t : List Step} {code : Option Nat} (hx : x.request = .readLine)
    (hc : closes x = none) (h : Reads t code) : Reads (x :: t) code where
  only := by
    intro y hy
    rcases List.mem_cons.mp hy with rfl | hy
    · exact hx
    · exact h.only y hy
  replies := by
    intro q
    have : answering q x = q := by simp [answering, hx]
    simp only [Smtp.replies, hc, this, h.replies]

end Reads

theorem reads_nil : Reads [] none := ⟨by simp, fun _ => rfl⟩

variable {t : List Step} {r : Except ImapError (Nat × List String)}

theorem readReplyFrom_reads {n : Nat} {lines : List String} (h : (readReplyFrom n lines).run.Runs t r) :
    Reads t (r.toOption.map Prod.fst) := by
  induction n generalizing lines t with
  | zero =>
    obtain ⟨rfl, rfl⟩ := runs_throw.mp h
    exact reads_nil
  | succ n ih =>
    rw [readReplyFrom, runs_lift_bind] at h
    obtain ⟨t₁, answer, t₂, rfl, h₁, h₂⟩ := h
    obtain rfl := runs_request.mp h₁
    cases answer with
    | error detail =>
      obtain ⟨rfl, rfl⟩ := runs_throw.mp h₂
      exact .cons rfl rfl reads_nil
    | ok line =>
      by_cases hline : line = ""
      · have hclose : closes ⟨.readLine, .ok line⟩ = none := by
          subst hline
          decide
        simp only [hline, if_true] at h₂
        obtain ⟨rfl, rfl⟩ := runs_throw.mp h₂
        exact .cons rfl hclose reads_nil
      simp only [hline, if_false] at h₂
      cases hreply : readReplyLine line with
      | error e =>
        simp only [hreply] at h₂
        obtain ⟨rfl, rfl⟩ := runs_throw.mp h₂
        exact .cons rfl (by simp only [closes, hreply]) reads_nil
      | ok reply =>
        by_cases hmore : reply.more = true
        · simp only [hreply, hmore, if_true] at h₂
          exact .cons rfl (by simp only [closes, hreply, hmore, if_true]) (ih h₂)
        · simp only [hreply, hmore] at h₂
          obtain ⟨rfl, rfl⟩ := runs_pure_except.mp h₂
          have hclose : closes ⟨.readLine, .ok line⟩ = some reply.code := by simp [closes, hreply, hmore]
          exact ⟨by simp, fun q => by simp [Smtp.replies, hclose, Except.toOption]⟩

theorem readReplyLines_reads (h : readReplyLines.run.Runs t r) : Reads t (r.toOption.map Prod.fst) :=
  readReplyFrom_reads h

theorem readReply_reads {r : Except ImapError (Nat × String)}
    (h : readReply.run.Runs t r) : Reads t (r.toOption.map Prod.fst) := by
  rw [readReply, runs_bind_except] at h
  rcases h with ⟨e, h, rfl⟩ | ⟨t₁, ⟨code, lines⟩, t₂, rfl, h, h'⟩
  · exact readReplyLines_reads h
  · obtain ⟨rfl, rfl⟩ := runs_pure_except.mp h'
    rw [List.append_nil]
    exact readReplyLines_reads h

theorem attempt_runs {write : Dialogue Request Answer (Except String Unit)} {r : Except ImapError Unit} (h : (attempt write).run.Runs t r) :
    ∃ a, write.Runs t a ∧ r = a.mapError ImapError.io := by
  rw [attempt, runs_lift_bind] at h
  obtain ⟨t₁, a, t₂, rfl, h₁, h₂⟩ := h
  cases a with
  | error detail =>
    obtain ⟨rfl, rfl⟩ := runs_throw.mp h₂
    exact ⟨_, by rwa [List.append_nil], rfl⟩
  | ok u =>
    obtain ⟨rfl, rfl⟩ := runs_pure_except.mp h₂
    exact ⟨_, by rwa [List.append_nil], rfl⟩

end Smtp

end SyncEngine
