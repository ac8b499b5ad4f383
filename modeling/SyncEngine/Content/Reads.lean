import SyncEngine.Content.Backed

/-!
# Reads that cache what they fetched

A read of a body, a source or an attachment takes no lease.  It looks for the text, then for the source, else it
asks the provider, and it caches what it has, one call after the other: between two of them any call of the store may
be made.  A failed write is passed over.  A source whose file is gone or damaged is a miss.
-/

namespace SyncEngine
namespace Content

variable {ω : Type}

/-- What a message's bytes say. -/
structure Mime where
  extractBody : RawMime → MessageBody
  hasDownloadableAttachment : RawMime → Option Bool

inductive Ask where
  | getMessageBody
  | getMessageSource
  | mailHasAttachment
  | fetchMessageSource
  | putMessageSource (source : RawMime)
  | putMessageBody (body : MessageBody)
  | setMailHasAttachment (hasAttachment : Bool)

def Answer : Ask → Type
  | .getMessageBody => Except String (Option MessageBody)
  | .getMessageSource => Except String (Option RawMime)
  | .mailHasAttachment => Except String (Option Bool)
  | .fetchMessageSource => Except String RawMime
  | .putMessageSource _ | .putMessageBody _ | .setMailHasAttachment _ => Except String Unit

abbrev Read (α : Type) : Type := ExceptT String (Dialogue Ask Answer) α

/-- Asks once, and leaves it to the program what to do about a fault. -/
def ask (q : Ask) : Dialogue Ask Answer (Answer q) := Dialogue.request q

namespace Read

def getMessageBody : Read (Option MessageBody) := ExceptT.mk (ask .getMessageBody)

def getMessageSource : Read (Option RawMime) := ExceptT.mk (ask .getMessageSource)

def fetchMessageSource : Read RawMime := ExceptT.mk (ask .fetchMessageSource)

/-- Makes a call of which it does not matter whether it succeeds. -/
def bestEffort (q : Ask) : Read Unit := ExceptT.lift ((ask q).bind fun _ => .done ())

/-- Bytes that are no message say nothing. -/
def answerFrom (mime : Mime) (raw : RawMime) : Read Unit :=
  match mime.hasDownloadableAttachment raw with
  | none => pure ()
  | some answer => bestEffort (.setMailHasAttachment answer)

def cacheFetchedSource (mime : Mime) (raw : RawMime) : Read Unit := do
  answerFrom mime raw
  bestEffort (.putMessageSource raw)

def owed : Except String (Option Bool) → Bool
  | .ok none => true
  | _ => false

def owesAnswer : Read Bool := ExceptT.lift ((ask .mailHasAttachment).bind fun a => .done (owed a))

def answerFromIfOwed (mime : Mime) (raw : RawMime) : Read Unit := do
  if ← owesAnswer then answerFrom mime raw

def answerFound (mime : Mime) : Except String (Option RawMime) → Read Unit
  | .ok (some raw) => answerFrom mime raw
  | _ => pure ()

def answerIfOwed (mime : Mime) : Read Unit := do
  if ← owesAnswer then
    let found ← ExceptT.lift (ask .getMessageSource)
    answerFound mime found

/-- The source, cached first, with what the read owes the caches once it has it. -/
def rawSource (mime : Mime) : Option RawMime → Read RawMime
  | some cached => do
    answerFromIfOwed mime cached
    pure cached
  | none => do
    let raw ← fetchMessageSource
    cacheFetchedSource mime raw
    pure raw

def bodyOf (mime : Mime) : Option MessageBody → Read MessageBody
  | some body => do
    answerIfOwed mime
    pure body
  | none => do
    let raw ← rawSource mime (← getMessageSource)
    bestEffort (.putMessageBody (mime.extractBody raw))
    pure (mime.extractBody raw)

def fetchMessageBody (mime : Mime) : Read MessageBody := do
  bodyOf mime (← getMessageBody)

/-- The reads of inline parts, of attachments and of the source itself go the same way. -/
def withRawSource (mime : Mime) : Read RawMime := do
  rawSource mime (← getMessageSource)

def ensureFound (mime : Mime) : Option RawMime → Read Unit
  | some _ => pure ()
  | none => do
    let raw ← fetchMessageSource
    cacheFetchedSource mime raw

def ensureMessageSource (mime : Mime) : Read Unit := do
  ensureFound mime (← getMessageSource)

def warmMessageSource (mime : Mime) : Read Unit := do
  let raw ← fetchMessageSource
  cacheFetchedSource mime raw
  bestEffort (.putMessageBody (mime.extractBody raw))

end Read

/-- The reads a host makes of a message. -/
inductive Reading where
  | body
  | source
  | ensure
  | warm
  deriving DecidableEq, Repr

def Reading.program (mime : Mime) : Reading → Dialogue Ask Answer Unit
  | .body => (Read.fetchMessageBody mime).run.bind fun _ => .done ()
  | .source => (Read.withRawSource mime).run.bind fun _ => .done ()
  | .ensure => (Read.ensureMessageSource mime).run.bind fun _ => .done ()
  | .warm => (Read.warmMessageSource mime).run.bind fun _ => .done ()

/-! ## Reads beside the calls of the store -/

structure Reader where
  held : Held
  rest : Dialogue Ask Answer Unit

structure System (ω : Type) where
  store : Store ω
  readers : List Reader

/-- How the outside answers a call of a read: as the tables have it, with a fault, with a miss, or with the bytes
the provider sent. -/
inductive Choice where
  | served
  | fault (detail : String)
  | miss
  | fetched (raw : RawMime)
  deriving DecidableEq, Repr

def Ask.call (held : Held) : Ask → Option (Call ω)
  | .putMessageSource source => some (.putMessageSource held source)
  | .putMessageBody body => some (.putMessageBody held body)
  | .setMailHasAttachment answer => some (.setMailHasAttachment held answer)
  | _ => none

def answer (st : Store ω) (held : Held) : (q : Ask) → Choice → Option (Answer q)
  | .getMessageBody, .served => some (.ok (st.getMessageBody held))
  | .getMessageSource, .served => some (.ok (st.tables.messageSource.get? held))
  | .getMessageSource, .miss => some (.ok none)
  | .mailHasAttachment, .served => some (.ok (st.tables.sourceAttachment.get? held))
  | .fetchMessageSource, .fetched raw => some (.ok raw)
  | .putMessageSource _, .served | .putMessageBody _, .served | .setMailHasAttachment _, .served =>
    some (.ok ())
  | .getMessageBody, .fault detail | .getMessageSource, .fault detail | .mailHasAttachment, .fault detail
  | .fetchMessageSource, .fault detail | .putMessageSource _, .fault detail
  | .putMessageBody _, .fault detail | .setMailHasAttachment _, .fault detail => some (.error detail)
  | _, _ => none

def Reader.call (reader : Reader) : Option (Call ω) :=
  match reader.rest with
  | .done _ => none
  | .ask q _ => q.call reader.held

inductive Event (ω : Type) where
  | call (call : Call ω)
  | begin (held : Held) (reading : Reading)
  | read (i : Nat) (choice : Choice)

/-- The call of the store an event makes.  A write that fails makes none. -/
def System.made (s : System ω) : Event ω → Option (Call ω)
  | .call call => some call
  | .begin _ _ => none
  | .read i .served =>
    (s.readers[i]?).bind Reader.call
  | .read _ _ => none

def System.storeAfter (s : System ω) (e : Event ω) (now : UtcDateTime) : Store ω :=
  match s.made e with
  | some call => s.store.run call now
  | none => s.store

def Reader.next (st : Store ω) (reader : Reader) (choice : Choice) : Option Reader :=
  match reader.rest with
  | .done _ => none
  | .ask q next => (answer st reader.held q choice).map fun a => { reader with rest := next a }

def System.readersAfter (mime : Mime) (s : System ω) : Event ω → Option (List Reader)
  | .call _ => some s.readers
  | .begin held reading => some (s.readers ++ [⟨held, reading.program mime⟩])
  | .read i choice =>
    (s.readers[i]?).bind fun reader => (reader.next s.store choice).map fun r => s.readers.set i r

def System.step (mime : Mime) (now : UtcDateTime) (s : System ω) (e : Event ω) : Option (System ω) :=
  (s.readersAfter mime e).map fun readers => ⟨s.storeAfter e now, readers⟩

def System.start : System ω := ⟨Store.new, []⟩

def Reader.finished (reader : Reader) : Bool :=
  match reader.rest with
  | .done _ => true
  | .ask _ _ => false

def System.quiet (s : System ω) : Bool := s.readers.all Reader.finished

/-! ## Every run -/

/-- One event, at the clock it happens at. -/
def System.Steps (mime : Mime) (s : System ω) (e : Event ω × UtcDateTime) (s' : System ω) : Prop :=
  s.step mime e.2 e.1 = some s'

def System.careful (s : System ω) (e : Event ω) : Bool :=
  (s.made e).all s.store.careful

theorem System.store_step {mime : Mime} {now : UtcDateTime} {s s' : System ω} {e : Event ω}
    (h : s.step mime now e = some s') : s'.store = s.storeAfter e now := by
  unfold System.step at h
  obtain ⟨readers, -, rfl⟩ := Option.map_eq_some_iff.mp h
  rfl

theorem System.kept_storeAfter {s : System ω} {e : Event ω} (hk : Store.Kept s.store)
    (hcareful : s.careful e = true) (now : UtcDateTime) : Store.Kept (s.storeAfter e now) := by
  unfold System.storeAfter
  unfold System.careful at hcareful
  cases hmade : s.made e with
  | none => exact hk
  | some call =>
    rw [hmade] at hcareful
    exact hk.run call hcareful now

/-- In a run of careful events every cached row names a live message, whether reads are in progress or not. -/
theorem cached_goes_with_message {mime : Mime} {es : List (Event ω × UtcDateTime)} {s : System ω}
    (h : Run (fun s e s' => s.Steps mime e s' ∧ s.careful e.1 = true) System.start es s) (held : Held)
    (hcached : s.store.tables.cached held = true) : s.store.tables.live held = true := by
  have hkept : Store.Kept s.store := by
    refine Run.preserves (I := fun s : System ω => Store.Kept s.store) ?_ h Store.kept_new
    intro s e s' hk hstep
    rw [System.store_step hstep.1]
    exact System.kept_storeAfter hk hstep.2 e.2
  exact hkept.backed held hcached

namespace Sample

open Scope.Sample (inbox noon request first)

/-- A message is its text. -/
def mime : Mime := ⟨fun raw => ⟨some (toString raw), none⟩, fun _ => some false⟩

def m1 : Held := ("a", "m1")

def arrival : List (Event Unit) :=
  [.call (.scopes (.claim "a" inbox request) []),
    .call (.scopes (.apply first (.delta [("m1", ())] []) .empty none) [⟨"m1", some 10⟩])]

/-- A body read gets no further than the provider's answer. -/
def fetch : List (Event Unit) :=
  [.begin m1 .body, .read 0 .served, .read 0 .served, .read 0 (.fetched [104, 105])]

/-- The attachment answer, the source and the text are written. -/
def writes : List (Event Unit) := [.read 0 .served, .read 0 .served, .read 0 .served]

def removal : Event Unit := .call (.scopes (.apply first (.delta [] ["m1"]) .empty none) [])

def forget : Event Unit := .call (.scopes (.forgetScope first) [])

/-- The message is opened and everything is cached. -/
def opened : List (Event Unit) := arrival ++ fetch ++ writes

/-- The message is removed while the provider answers. -/
def overtaken : List (Event Unit) := arrival ++ fetch ++ [removal] ++ writes

def forgotten : List (Event Unit) := opened ++ [forget]

def atNoon (es : List (Event Unit)) : List (Event Unit × UtcDateTime) := es.map fun e => (e, noon)

def run (es : List (Event Unit)) : Option (System Unit) :=
  (atNoon es).foldlM (fun s e => s.step mime e.2 e.1) System.start

def carefulRun (es : List (Event Unit)) : Option (System Unit) :=
  (atNoon es).foldlM (fun s e => if s.careful e.1 then s.step mime e.2 e.1 else none) System.start

/-- No read is in progress, and the message's text is cached with no message to go with. -/
def orphaned (s : System Unit) : Bool :=
  s.quiet && s.store.tables.cached m1 && !s.store.tables.live m1

theorem careful_of_foldlM {es : List (Event Unit)} {s : System Unit} (h : carefulRun es = some s) :
    Run (fun s e s' => s.Steps mime e s' ∧ s.careful e.1 = true) System.start (atNoon es) s := by
  refine Run.mono ?_ (Run.of_foldlM h)
  intro s e _ s' hstep
  by_cases hc : s.careful e.1 = true
  · rw [if_pos hc] at hstep
    exact ⟨hstep, hc⟩
  · rw [if_neg hc] at hstep
    cases hstep

end Sample

open Sample

theorem cached_goes_with_message_opened : ∃ s, carefulRun opened = some s ∧ s.store.tables.cached m1 = true ∧
      s.store.tables.live m1 = true := by
  have hopened : ∃ s, carefulRun opened = some s ∧ s.store.tables.cached m1 = true := by decide
  obtain ⟨s, hrun, hcached⟩ := hopened
  exact ⟨s, hrun, hcached, cached_goes_with_message (careful_of_foldlM hrun) m1 hcached⟩

/-- The text stays when the message is removed during the fetch, and when its folder is forgotten. -/
theorem cached_outlives_message : (∃ s, Run (fun s e s' => s.Steps mime e s') System.start (atNoon overtaken) s ∧
      s.quiet = true ∧ ¬ ∀ held, s.store.tables.cached held = true → s.store.tables.live held = true) ∧
    (∃ s, Run (fun s e s' => s.Steps mime e s') System.start (atNoon forgotten) s ∧
      s.quiet = true ∧ ¬ ∀ held, s.store.tables.cached held = true → s.store.tables.live held = true) := by
  have horphaned : ∀ s : System Unit, orphaned s = true →
      s.quiet = true ∧ ¬ ∀ held, s.store.tables.cached held = true → s.store.tables.live held = true := by
    intro s hs
    simp only [orphaned, Bool.and_eq_true, Bool.not_eq_true'] at hs
    refine ⟨hs.1.1, fun h => ?_⟩
    have hlive := h m1 hs.1.2
    rw [hs.2] at hlive
    exact absurd hlive (by decide)
  have hovertaken : ∃ s, run overtaken = some s ∧ orphaned s = true := by decide
  have hforgotten : ∃ s, run forgotten = some s ∧ orphaned s = true := by decide
  obtain ⟨s, hrun, hs⟩ := hovertaken
  obtain ⟨s', hrun', hs'⟩ := hforgotten
  exact ⟨⟨s, Run.of_foldlM hrun, horphaned s hs⟩, ⟨s', Run.of_foldlM hrun', horphaned s' hs'⟩⟩

end Content
end SyncEngine
