import SyncEngine.Outbox.Op
import SyncEngine.Clock.Sortable

/-!
# Columns that are read back

A row keeps an instant as text and a payload as JSON text, and every load reads them back.  That can fail: a year
before 0 is written with a sign, which is not read, and the JSON parser goes into 127 arrays and objects and no more.
-/

namespace SyncEngine

/-- An error as it is shown.  What it quotes is the text of an instant, of which nothing is escaped. -/
def Clock.TimeError.display : Clock.TimeError → String
  | .malformed expected found => "malformed " ++ expected ++ ": \"" ++ found ++ "\""
  | .outOfRange => "date/time component out of range"
  | .subsecondTooPrecise => "subsecond precision finer than nanoseconds is not supported"
  | .empty => "value must not be empty"
  | .emptyRange => "range start must be strictly before end"

namespace Outbox

/-! ## Instants -/

def parseInstant (text : List Char) : Result UtcDateTime :=
  match (Clock.parseUtcDateTime text).run with
  | some (.ok t) => .ok t
  | some (.error e) => .error (.backend e.display)
  -- a panic, which no text of an instant is one for
  | none => .error (.backend "")

def parseOptInstant : Option UtcDateTime → Result (Option UtcDateTime)
  | none => .ok none
  | some t => (parseInstant (Clock.toSortableString t)).map some

/-- An instant of the year 0 or a later one. -/
def Written (t : UtcDateTime) : Prop := 0 ≤ (Clock.wallOf t).date.year

theorem Written.mono {t u : UtcDateTime} (h : Written t) (hle : t ≤ u) : Written u := by
  have hnanos : (Clock.wallOf t).nanos ≤ (Clock.wallOf u).nanos := by
    rw [Clock.wallOf_nanos, Clock.wallOf_nanos]
    have hcast : (t.nanos : Int) ≤ u.nanos := by exact_mod_cast hle
    omega
  exact Clock.year_nonneg_iff.mpr (le_trans (Clock.year_nonneg_iff.mp h) hnanos)

theorem parseInstant_written {t : UtcDateTime} (h : Written t) : parseInstant (Clock.toSortableString t) = .ok t := by
  have hrun : (Clock.parseUtcDateTime (Clock.toSortableString t)).run = some (.ok t) :=
    Clock.gives_parse_toSortableString h
  unfold parseInstant
  rw [hrun]

theorem parseOptInstant_written {column : Option UtcDateTime} (h : ∀ t ∈ column, Written t) :
    parseOptInstant column = .ok column := by
  cases column with
  | none => rfl
  | some t => simp only [parseOptInstant, parseInstant_written (h t rfl), Except.map]

theorem parseOptInstant_cases (column : Option UtcDateTime) : parseOptInstant column = .ok column ∨
    ∃ message, parseOptInstant column = .error (.backend message) := by
  cases column with
  | none => exact .inl rfl
  | some t =>
    by_cases h : Written t
    · refine .inl (parseOptInstant_written fun u hu => ?_)
      rwa [← Option.some.inj hu]
    · obtain ⟨e, hrun⟩ := Clock.parse_toSortableString_of_neg h
      have hparse : parseInstant (Clock.toSortableString t) = .error (.backend e.display) := by
        unfold parseInstant
        rw [hrun]
      exact .inr ⟨e.display, by simp only [parseOptInstant, hparse, Except.map]⟩

theorem parseOptInstant_ok {column column' : Option UtcDateTime} (h : parseOptInstant column = .ok column') :
    column' = column := by
  rcases parseOptInstant_cases column with hok | ⟨message, herror⟩
  · exact (Except.ok.inj (hok.symm.trans h)).symm
  · cases herror.symm.trans h

/-! ## Payloads -/

/-- Where in a JSON text the parser is. -/
inductive JsonPlace
  | value
  | string
  | escape

/-- How many arrays and objects into one another are one too many. -/
def recursionLimit : Nat := 128

/-- The column at which a JSON text opens the array or object the parser does not go into, if it does, once it is at
`place` with so many of them open and so many bytes behind it. -/
def refusedAt : JsonPlace → Nat → Nat → List Char → Option Nat
  | _, _, _, [] => none
  | .escape, depth, column, c :: rest => refusedAt .string depth (column + c.utf8Size) rest
  | .string, depth, column, c :: rest =>
    refusedAt (if c = '\\' then .escape else if c = '"' then .value else .string) depth (column + c.utf8Size) rest
  | .value, depth, column, c :: rest =>
    if c = '[' ∨ c = '\x7b' then
      if recursionLimit ≤ depth + 1 then some (column + 1) else refusedAt .value (depth + 1) (column + 1) rest
    else if c = ']' ∨ c = '\x7d' then refusedAt .value (depth - 1) (column + 1) rest
    else refusedAt (if c = '"' then .string else .value) depth (column + c.utf8Size) rest

/-- Where the parser refuses a payload, if it does. -/
def payloadRefused (payload : String) : Option Nat := refusedAt .value 0 0 payload.toList

def parsePayload (id : Nat) : Option String → Result String
  | some text =>
    match payloadRefused text with
    | none => .ok text
    | some column => .error (.backend ("recursion limit exceeded at line 1 column " ++ toString column))
  | none => .error (.backend ("outstanding op " ++ toString id ++ " has no payload"))

theorem parsePayload_some {id : Nat} {text : String} (h : payloadRefused text = none) :
    parsePayload id (some text) = .ok text := by
  simp only [parsePayload, h]

example : refusedAt .value 0 0 (List.replicate 127 '[' ++ List.replicate 127 ']') = none := by decide +kernel

example : refusedAt .value 0 0 (List.replicate 128 '[' ++ List.replicate 128 ']') = some 128 := by decide +kernel

end Outbox
end SyncEngine
