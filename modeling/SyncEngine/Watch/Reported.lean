import SyncEngine.Watch.Idle

/-!
# No change is swallowed

Whatever lines the watcher reads between two returns, each notice among them is informational where the second return is
a keep-alive: a change sets a flag that only a `Changed` or an error takes back.  And the lines the watcher reads are
the server's, as long as no read is given up in the middle of a line with the connection still open; one that is takes
the beginning of the line with it.
-/

namespace SyncEngine
namespace Watch

/-- A read is given up at the end of a line only, or on a connection that is closed; no literal is over the
limit; and the server does not say good-bye before it accepts an `IDLE`. -/
def Watcher.careful (w : Watcher) : Event → Bool
  | .call => true
  | .byte b =>
    match w.part.push b with
    | .more p => decide (p.literal ≤ maxLiteral)
    | .done line =>
      match w.stage with
      | .starting _ _ => decide (classify line ≠ .bye)
      | _ => true
  | .elapse => w.part.line.isEmpty
  | .fail closed _ => closed || w.part.line.isEmpty

def Watcher.CarefulSteps (w : Watcher) (t : Told) (w' : Watcher) : Prop :=
  w.Steps t w' ∧ w.careful t.event = true

/-! ## Lines and returns -/

def Informs (line : List UInt8) : Prop :=
  (stripAsciiPrefix line star).isSome → classify line = .informational

/-- A change was seen that the call has not returned yet. -/
def Watcher.flagged (w : Watcher) : Prop :=
  match w.stage with
  | .starting _ sawChange => sawChange = true
  | .draining _ sawChange => sawChange = true
  | _ => False

variable {line : List UInt8}

theorem Informs.not_change (h : Informs line) : ¬Change line := by
  intro hchange
  have hclass := hchange.classify
  have hstar : (stripAsciiPrefix line star).isSome := by
    unfold classify at hclass
    cases hs : stripAsciiPrefix line star with
    | none =>
      rw [hs] at hclass
      cases hclass
    | some body => rfl
  rw [h hstar] at hclass
  cases hclass

theorem stripAsciiPrefix_isSome {pattern : List UInt8} : (stripAsciiPrefix line pattern).isSome ↔ pattern <+: line := by
  unfold stripAsciiPrefix stripFront
  by_cases hleads : pattern <+: line
  · simp [hleads]
  · simp [hleads]

theorem lossy_of_star (h : (stripAsciiPrefix line star).isSome) : ∃ rest, lossy line = '*' :: rest := by
  obtain ⟨rest, rfl⟩ := stripAsciiPrefix_isSome.mp h
  exact ⟨' ' :: lossy rest, lossy_ascii_append (show ∀ c ∈ ['*', ' '], c.toNat < 128 by decide) rest⟩

variable {tag : Nat} {rest : List Char}

theorem informs_of_tag (h : stripFront (Watcher.tagPrefix tag) (lossy line) = some rest) : Informs line := by
  intro hstar
  obtain ⟨chars, hlossy⟩ := lossy_of_star hstar
  unfold stripFront at h
  by_cases hleads : Watcher.tagPrefix tag <+: lossy line
  · rw [hlossy] at hleads
    have hhead := (List.cons_prefix_cons.mp hleads).1
    exact absurd hhead (by decide)
  · rw [if_neg hleads] at h
    cases h

theorem classifyWords_ne_unexpected (words : List (List Char)) : classifyWords words ≠ .unexpected := by
  cases words with
  | nil => simp [classifyWords]
  | cons first rest =>
    simp only [classifyWords]
    split_ifs <;> simp

theorem informs_of_classify (h : classify line = .informational ∨ classify line = .unexpected) : Informs line := by
  intro hstar
  rcases h with h | h
  · exact h
  · unfold classify at h
    obtain ⟨body, hbody⟩ := Option.isSome_iff_exists.mp hstar
    rw [hbody] at h
    exact absurd h (classifyWords_ne_unexpected _)

/-- What a line does in a call that returns nothing yet, or a keep-alive. -/
structure Kept (w : Watcher) (line : List UInt8) (w' : Watcher) (outcome : Option Outcome) : Prop where
  seen : Informs line ∨ w'.flagged
  flagged : w.flagged → w'.flagged
  quiet : outcome = some .keepAlive → ¬w.flagged ∧ Informs line

variable {w : Watcher} {sawChange : Bool}

theorem onStarting_kept (hstage : w.stage = .starting tag sawChange) (hbye : classify line ≠ .bye)
    (hquiet : (w.onStarting tag sawChange line).2 = none ∨ (w.onStarting tag sawChange line).2 = some .keepAlive) :
    Kept w line (w.onStarting tag sawChange line).1 (w.onStarting tag sawChange line).2 := by
  unfold Watcher.onStarting at hquiet ⊢
  by_cases hplus : (stripAsciiPrefix line plus).isSome
  · rw [if_pos hplus] at hquiet ⊢
    cases sawChange with
    | true => simp at hquiet
    | false =>
      have hinforms : Informs line := by
        intro hstar
        obtain ⟨rest, rfl⟩ := stripAsciiPrefix_isSome.mp hplus
        have hhead := (List.cons_prefix_cons.mp (stripAsciiPrefix_isSome.mp hstar)).1
        exact absurd hhead (by decide)
      refine ⟨.inl hinforms, ?_, fun h => by simp at h⟩
      simp [Watcher.flagged, hstage]
  · rw [if_neg hplus] at hquiet ⊢
    by_cases hstar : (stripAsciiPrefix line star).isSome
    · rw [if_pos hstar] at hquiet ⊢
      refine ⟨?_, ?_, fun h => by simp at h⟩
      · cases hclass : classify line with
        | changed => exact .inr (by simp [Watcher.flagged])
        | informational => exact .inl fun _ => hclass
        | bye => exact absurd hclass hbye
        | unexpected => exact .inl (informs_of_classify (.inr hclass))
      · intro hflag
        simp only [Watcher.flagged, hstage] at hflag
        simp [Watcher.flagged, hflag]
    · rw [if_neg hstar] at hquiet
      simp [Watcher.fails] at hquiet

theorem onWaiting_kept (hquiet : (w.onWaiting line).2 = none ∨ (w.onWaiting line).2 = some .keepAlive) :
    Kept w line (w.onWaiting line).1 (w.onWaiting line).2 := by
  unfold Watcher.onWaiting at hquiet ⊢
  cases hclass : classify line with
  | changed => simp [hclass] at hquiet
  | informational => exact ⟨.inl fun _ => hclass, fun h => h, fun h => by simp at h⟩
  | bye => simp [hclass, Watcher.fails] at hquiet
  | unexpected => simp [hclass, Watcher.fails] at hquiet

theorem completes_quiet (h : (w.completes sawChange rest).2 = none ∨ (w.completes sawChange rest).2 = some .keepAlive) :
    sawChange = false := by
  simp only [Watcher.completes, Watcher.fails] at h
  split_ifs at h <;> simp_all

theorem onDraining_kept (hstage : w.stage = .draining tag sawChange)
    (hquiet : (w.onDraining tag sawChange line).2 = none ∨ (w.onDraining tag sawChange line).2 = some .keepAlive) :
    Kept w line (w.onDraining tag sawChange line).1 (w.onDraining tag sawChange line).2 := by
  unfold Watcher.onDraining at hquiet ⊢
  cases htag : stripFront (Watcher.tagPrefix tag) (lossy line) with
  | some rest =>
    have hinforms := informs_of_tag htag
    simp only [htag] at hquiet ⊢
    have hsaw := completes_quiet hquiet
    subst hsaw
    have hflag : ¬w.flagged := by simp [Watcher.flagged, hstage]
    exact ⟨.inl hinforms, fun h => absurd h hflag, fun _ => ⟨hflag, hinforms⟩⟩
  | none =>
    simp only [htag] at hquiet ⊢
    cases hclass : classify line with
    | changed => exact ⟨.inr rfl, fun _ => rfl, fun h => by simp at h⟩
    | informational => exact ⟨.inl fun _ => hclass, fun h => h, fun h => by simp at h⟩
    | bye => simp [hclass, Watcher.fails] at hquiet
    | unexpected => exact ⟨.inl (informs_of_classify (.inr hclass)), fun h => h, fun h => by simp at h⟩

theorem onLine_kept (hstage : w.stage ≠ .returned)
    (hbye : ∀ tag sawChange, w.stage = .starting tag sawChange → classify line ≠ .bye)
    (hquiet : (w.onLine line).2 = none ∨ (w.onLine line).2 = some .keepAlive) :
    Kept w line (w.onLine line).1 (w.onLine line).2 := by
  unfold Watcher.onLine at hquiet ⊢
  cases h : w.stage with
  | returned => exact absurd h hstage
  | starting tag sawChange =>
    simp only [h] at hquiet ⊢
    exact onStarting_kept h (hbye tag sawChange h) hquiet
  | waiting =>
    simp only [h] at hquiet ⊢
    exact onWaiting_kept hquiet
  | draining tag sawChange =>
    simp only [h] at hquiet ⊢
    exact onDraining_kept h hquiet

/-! ## What a careful step is -/

inductive Took (w : Watcher) : Told → Watcher → Prop
  | call {w' : Watcher} (hstage : w.stage = .returned) (hpart : w'.part = .empty)
      (hclosed : w'.closed = w.closed) : Took w ⟨.call, none, none⟩ w'
  | byte {b : UInt8} {p : Partial} (hclosed : w.closed = false) (hstage : w.stage ≠ .returned)
      (hpush : w.part.push b = .more p) : Took w ⟨.byte b, none, none⟩ { w with part := p }
  | line {b : UInt8} {line : List UInt8} (hclosed : w.closed = false) (hstage : w.stage ≠ .returned)
      (hpush : w.part.push b = .done line)
      (hbye : ∀ tag sawChange, w.stage = .starting tag sawChange → classify line ≠ .bye) :
      Took w ⟨.byte b, some line, (Watcher.onLine { w with part := .empty } line).2⟩
        (Watcher.onLine { w with part := .empty } line).1
  | elapse {w' : Watcher} {outcome : Option Outcome} (hstage : w.stage = .waiting)
      (hline : w.part.line = []) (hpart : w'.part = .empty) (hclosed : w'.closed = w.closed)
      (houtcome : outcome ≠ some .keepAlive) : Took w ⟨.elapse, none, outcome⟩ w'
  | fail {w' : Watcher} {closed : Bool} {detail : String} {err : Pool.ImapError}
      (hline : closed = true ∨ w.part.line = []) (hpart : w'.part = .empty)
      (hclosed : w'.closed = (w.closed || closed)) :
      Took w ⟨.fail closed detail, none, some (.error err)⟩ w'

variable {w' : Watcher} {t : Told}

theorem took_of_careful (h : w.CarefulSteps t w') : Took w t w' := by
  obtain ⟨event, line, outcome⟩ := t
  obtain ⟨hstep, hcareful⟩ := h
  unfold Watcher.Steps Watcher.step at hstep
  cases event with
  | call =>
    dsimp only at hstep
    split at hstep
    · rename_i hstage _
      cases hstep
      exact .call hstage rfl rfl
    · rename_i hstage _
      cases hstep
      exact .call hstage rfl rfl
    · cases hstep
  | byte b =>
    dsimp only at hstep
    by_cases hdead : w.closed ∨ w.stage = .returned
    · rw [if_pos hdead] at hstep
      cases hstep
    · rw [if_neg hdead] at hstep
      simp only [not_or, Bool.not_eq_true] at hdead
      cases hpush : w.part.push b with
      | more p =>
        simp only [Watcher.careful, hpush, decide_eq_true_eq] at hcareful
        simp only [hpush, if_neg (Nat.not_lt.mpr hcareful)] at hstep
        cases hstep
        exact .byte hdead.1 hdead.2 hpush
      | done line' =>
        simp only [hpush] at hstep
        cases hstep
        refine .line hdead.1 hdead.2 hpush ?_
        intro tag sawChange hstage
        simpa [Watcher.careful, hpush, hstage] using hcareful
  | elapse =>
    have hline : w.part.line = [] := by simpa [Watcher.careful] using hcareful
    dsimp only at hstep
    split at hstep
    · rename_i hstage _
      cases hstep
      exact .elapse hstage hline rfl rfl (by simp)
    · rename_i hstage _
      cases hstep
      exact .elapse hstage hline rfl rfl (by simp)
    · cases hstep
  | fail closed detail =>
    have hline : closed = true ∨ w.part.line = [] := by simpa [Watcher.careful] using hcareful
    dsimp only at hstep
    by_cases hstage : w.stage = .returned
    · rw [if_pos hstage] at hstep
      cases hstep
    · rw [if_neg hstage] at hstep
      cases hstep
      exact .fail hline rfl rfl

theorem step_kept (h : w.CarefulSteps t w') (hquiet : t.outcome = none ∨ t.outcome = some .keepAlive) :
    (w.flagged → w'.flagged) ∧ (∀ line, t.line = some line → Informs line ∨ w'.flagged) ∧
      (t.outcome = some .keepAlive → ¬w.flagged ∧ (∀ line, t.line = some line → Informs line)) := by
  cases took_of_careful h with
  | call hstage =>
    refine ⟨fun hflag => ?_, fun line hl => by simp at hl, fun hk => by simp at hk⟩
    simp [Watcher.flagged, hstage] at hflag
  | byte hclosed hstage hpush => exact ⟨fun hflag => hflag, fun line hl => by simp at hl, fun hk => by simp at hk⟩
  | @line b line hclosed hstage hpush hbye =>
    have hkept := onLine_kept (w := { w with part := .empty }) hstage hbye hquiet
    refine ⟨hkept.flagged, fun l hl => ?_, fun hk => ?_⟩
    · cases hl
      exact hkept.seen
    · obtain ⟨hflag, hinforms⟩ := hkept.quiet hk
      refine ⟨hflag, fun l hl => ?_⟩
      cases hl
      exact hinforms
  | elapse hstage hline hpart hclosed houtcome =>
    refine ⟨fun hflag => ?_, fun line hl => by simp at hl, fun hk => absurd hk houtcome⟩
    simp [Watcher.flagged, hstage] at hflag
  | fail => simp at hquiet

variable {ts : List Told}

theorem run_kept (hrun : Run Watcher.CarefulSteps w ts w') (hquiet : Quiet ts) :
    (w.flagged → w'.flagged) ∧ ((∀ line ∈ linesRead ts, Informs line) ∨ w'.flagged) := by
  induction hrun with
  | nil w => exact ⟨fun h => h, .inl (by simp [linesRead])⟩
  | @cons w w₁ w₂ t ts hstep _ ih =>
    obtain ⟨hflag, hseen⟩ := ih fun t ht => hquiet t (List.mem_cons_of_mem _ ht)
    obtain ⟨hkept, hline, -⟩ := step_kept hstep (hquiet t List.mem_cons_self)
    refine ⟨fun h => hflag (hkept h), ?_⟩
    rcases hseen with hseen | hseen
    · cases hl : t.line with
      | none => exact .inl (by simpa [linesRead, hl] using hseen)
      | some line =>
        rcases hline line hl with hinforms | hflagged
        · exact .inl (by simpa [linesRead, hl, hinforms] using hseen)
        · exact .inr (hflag hflagged)
    · exact .inr hseen

theorem informs_of_keepAlive {w₁ w₂ w₃ : Watcher}
    (hrun : Run Watcher.CarefulSteps w₁ ts w₂) (hquiet : Quiet ts) (hlast : w₂.CarefulSteps t w₃)
    (hkeep : t.outcome = some .keepAlive) : ∀ line ∈ linesRead (ts ++ [t]), Informs line := by
  obtain ⟨-, -, hend⟩ := step_kept hlast (.inr hkeep)
  obtain ⟨hflag, hinforms⟩ := hend hkeep
  obtain ⟨-, hseen⟩ := run_kept hrun hquiet
  have hbefore : ∀ line ∈ linesRead ts, Informs line := hseen.resolve_right hflag
  intro line hline
  rw [linesRead, List.filterMap_append, List.mem_append] at hline
  rcases hline with hline | hline
  · exact hbefore line hline
  · obtain ⟨t', ht', hl⟩ := List.mem_filterMap.mp hline
    rw [List.mem_singleton.mp ht'] at hl
    exact hinforms line hl

/-! ## The lines read are the server's -/

theorem onLine_part (w : Watcher) (line : List UInt8) (h : w.part = .empty) :
    (w.onLine line).1.part = .empty ∧ (w.onLine line).1.closed = w.closed := by
  fun_cases Watcher.onLine w line with
  | case1 => exact ⟨h, rfl⟩
  | case2 tag sawChange =>
    unfold Watcher.onStarting
    split_ifs <;> exact ⟨by first | exact h | rfl, rfl⟩
  | case3 =>
    unfold Watcher.onWaiting
    split <;> exact ⟨by first | exact h | rfl, rfl⟩
  | case4 tag sawChange =>
    unfold Watcher.onDraining
    split
    · simp only [Watcher.completes]
      split_ifs <;> exact ⟨by first | exact h | rfl, rfl⟩
    · split <;> exact ⟨by first | exact h | rfl, rfl⟩

theorem bytes_append (ts us : List Told) : bytes (ts ++ us) = bytes ts ++ bytes us := List.flatMap_append

theorem linesRead_append (ts us : List Told) : linesRead (ts ++ us) = linesRead ts ++ linesRead us :=
  List.filterMap_append

/-- The bytes taken are the lines read and the beginning of the next. -/
structure Aligned (ts : List Told) (w : Watcher) : Prop where
  taken : bytes ts = (linesRead ts).flatten ++ w.part.line
  framed : ∀ line ∈ linesRead ts, Framed line
  reads : Partial.empty.Reads w.part.line w.part
  returned : w.stage = .returned → w.part = .empty

theorem Aligned.of_line_end (ha : Aligned ts w) (hbyte : bytes [t] = []) (hline : t.line = none) (hend : w.part.line = [])
    (hpart : w'.part = .empty) : Aligned (ts ++ [t]) w' where
  taken := by
    have htaken := ha.taken
    rw [hend] at htaken
    simp [bytes_append, hbyte, htaken, linesRead, hline, hpart, Partial.empty]
  framed := by
    intro line hmem
    refine ha.framed line ?_
    simpa [linesRead, hline] using hmem
  reads := by
    rw [hpart]
    rfl
  returned := fun _ => hpart

theorem Aligned.step (ha : Aligned ts w) (h : w.CarefulSteps t w') : w'.closed = true ∨ Aligned (ts ++ [t]) w' := by
  cases took_of_careful h with
  | call hstage hpart hclosed =>
    have hend : w.part.line = [] := by rw [ha.returned hstage]; rfl
    exact .inr (ha.of_line_end rfl rfl hend hpart)
  | @byte b p hclosed hstage hpush =>
    have hgrown := Partial.push_more hpush
    refine .inr ⟨?_, ?_, ?_, fun hreturned => absurd hreturned hstage⟩
    · rw [bytes_append, linesRead_append, ha.taken, hgrown]
      simp [bytes, linesRead]
    · intro line hmem
      exact ha.framed line (by simpa [linesRead] using hmem)
    · show Partial.empty.Reads p.line p
      rw [hgrown]
      exact ha.reads.snoc hpush
  | @line b line hclosed hstage hpush hbye =>
    have hwhole := Partial.push_done hpush
    have hpart := (onLine_part { w with part := .empty } line rfl).1
    refine .inr ⟨?_, ?_, ?_, fun _ => hpart⟩
    · rw [bytes_append, linesRead_append, ha.taken, hpart]
      simp [bytes, linesRead, hwhole, Partial.empty]
    · intro l hmem
      rw [linesRead, List.filterMap_append, List.mem_append] at hmem
      rcases hmem with hmem | hmem
      · exact ha.framed l hmem
      · have heq : l = line := by simpa using hmem
        subst heq
        exact ⟨w.part.line, b, w.part, hwhole, ha.reads, hpush⟩
    · rw [hpart]
      rfl
  | elapse hstage hline hpart hclosed houtcome => exact .inr (ha.of_line_end rfl rfl hline hpart)
  | @fail _ closed detail err hline hpart hclosed =>
    rcases hline with hdead | hend
    · exact .inl (by simp [hclosed, hdead])
    · exact .inr (ha.of_line_end rfl rfl hend hpart)

theorem closed_step (h : w.CarefulSteps t w') (hclosed : w.closed = true) : w'.closed = true := by
  cases took_of_careful h with
  | call hstage hpart hsame => rw [hsame, hclosed]
  | byte hopen => simp [hclosed] at hopen
  | line hopen => simp [hclosed] at hopen
  | elapse hstage hline hpart hsame => rw [hsame, hclosed]
  | fail hline hpart hsame => simp [hsame, hclosed]

theorem aligned_of_run (h : Run Watcher.CarefulSteps (Watcher.start tag) ts w) : w.closed = true ∨ Aligned ts w := by
  refine Run.history (I := fun ts w => w.closed = true ∨ Aligned ts w) ?_ h ?_
  · intro ts w t w' _ hi hstep
    rcases hi with hclosed | ha
    · exact .inl (closed_step hstep hclosed)
    · exact ha.step hstep
  · exact .inr ⟨rfl, by simp [linesRead], rfl, fun _ => rfl⟩

theorem line_of_keepAlive (h : w.CarefulSteps t w') (hkeep : t.outcome = some .keepAlive) :
    w.closed = false ∧ w'.closed = false ∧ w'.part = .empty := by
  cases took_of_careful h with
  | call => cases hkeep
  | byte => cases hkeep
  | @line b line hclosed hstage hpush hbye =>
    obtain ⟨hpart, hsame⟩ := onLine_part { w with part := .empty } line rfl
    exact ⟨hclosed, hsame.trans hclosed, hpart⟩
  | elapse hstage hline hpart hclosed houtcome => exact absurd hkeep houtcome
  | fail => cases hkeep

theorem closed_of_run (h : Run Watcher.CarefulSteps w ts w') (hclosed : w.closed = true) : w'.closed = true :=
  Run.preserves (I := fun w => w.closed = true) (fun _ _ _ hi hstep => closed_step hstep hi) h hclosed

/-! ## Every run -/

/-- Of the lines the server sent, those that lie between two of its bytes are informational. -/
def Silent (lines : List (List UInt8)) (first last : Nat) : Prop :=
  ∀ before line after, lines = before ++ line :: after → first ≤ before.flatten.length →
    (before ++ [line]).flatten.length ≤ last → Informs line ∧ ¬Change line

/-- Where a careful run comes to a keep-alive, every line the server sent since the last return of another kind
is informational. -/
theorem keepAlive_swallows_nothing {tag : Nat} {lines : List (List UInt8)} (hlines : ∀ line ∈ lines, Framed line)
    {before since : List Told} {t : Told} {w₁ w₂ w₃ : Watcher}
    (hbefore : Run Watcher.CarefulSteps (Watcher.start tag) before w₁)
    (hsince : Run Watcher.CarefulSteps w₁ since w₂) (hlast : w₂.CarefulSteps t w₃) (hquiet : Quiet since)
    (hkeep : t.outcome = some .keepAlive) (hsent : bytes (before ++ (since ++ [t])) <+: lines.flatten) :
    Silent lines (bytes before).length (bytes (before ++ (since ++ [t]))).length := by
  obtain ⟨hopen₂, hopen₃, hpart⟩ := line_of_keepAlive hlast hkeep
  have hopen₁ : ¬w₁.closed = true := by
    intro hclosed
    rw [closed_of_run hsince hclosed] at hopen₂
    cases hopen₂
  have hrun : Run Watcher.CarefulSteps (Watcher.start tag) (before ++ (since ++ [t])) w₃ :=
    hbefore.append (hsince.append (.cons hlast (.nil w₃)))
  have halign₁ := (aligned_of_run hbefore).resolve_left hopen₁
  have halign₃ := (aligned_of_run hrun).resolve_left (by simp [hopen₃])
  have htaken : bytes (before ++ (since ++ [t])) = (linesRead (before ++ (since ++ [t]))).flatten := by
    rw [halign₃.taken, hpart]
    simp [Partial.empty]
  -- the lines read are the first of the server's
  have hleads : linesRead (before ++ (since ++ [t])) <+: lines := by
    rw [htaken] at hsent
    exact framed_prefixFree.prefix_of_flatten halign₃.framed hlines hsent
  obtain ⟨unread, hunread⟩ := hleads
  rw [linesRead_append, List.append_assoc] at hunread
  intro prior line after hsplit hfirst hend
  have hmem : line ∈ linesRead (since ++ [t]) := by
    have hline : Framed line := hlines line (by simp [hsplit])
    refine mem_of_flatten_bounds (framed_prefixFree.ne_nil line hline) (hunread.trans hsplit) ?_ ?_
    · have hlength := congrArg List.length halign₁.taken
      rw [List.length_append] at hlength
      omega
    · rw [← linesRead_append, ← htaken]
      exact hend
  have hinforms := informs_of_keepAlive hsince hquiet hlast hkeep line hmem
  exact ⟨hinforms, hinforms.not_change⟩

/-! ## A keep-alive inside a line -/

/-- A run computed, as long as its steps are as `ok` says. -/
def tell (ok : Watcher → Event → Bool) : Watcher → List Event → Option (List Told × Watcher)
  | w, [] => some ([], w)
  | w, e :: es =>
    if ok w e then
      (w.step e).bind fun left =>
        (tell ok left.watcher es).map fun (ts, w') => (⟨e, left.line, left.outcome⟩ :: ts, w')
    else none

theorem run_of_tell {ok : Watcher → Event → Bool} {es : List Event} {told : List Told × Watcher}
    (h : tell ok w es = some told) : Run (fun w t w' => w.Steps t w' ∧ ok w t.event = true) w told.1 told.2 := by
  induction es generalizing w told with
  | nil =>
    cases h
    exact .nil _
  | cons e es ih =>
    unfold tell at h
    by_cases hok : ok w e = true
    · rw [if_pos hok] at h
      obtain ⟨left, hleft, hmap⟩ := Option.bind_eq_some_iff.mp h
      obtain ⟨⟨ts', w₁⟩, hrest, heq⟩ := Option.map_eq_some_iff.mp hmap
      cases heq
      exact .cons ⟨hleft, hok⟩ (ih hrest)
    · rw [if_neg hok] at h
      cases h

/-- The line is complete, computed. -/
def Partial.ends (p : Partial) : List UInt8 → Bool
  | [] => false
  | b :: rest =>
    match p.push b with
    | .more p' => p'.ends rest
    | .done _ => rest.isEmpty

theorem framed_of_ends (h : Partial.empty.ends line = true) : Framed line := by
  have hgen : ∀ {rest : List UInt8} {read : List UInt8} {p : Partial}, Partial.empty.Reads read p →
      p.line = read → p.ends rest = true → Framed (read ++ rest) := by
    intro rest
    induction rest with
    | nil =>
      intro read p _ _ hends
      cases hends
    | cons b rest ih =>
      intro read p hreads hline hends
      unfold Partial.ends at hends
      cases hpush : p.push b with
      | more p' =>
        rw [hpush] at hends
        have hgrown : p'.line = read ++ [b] := (Partial.push_more hpush).trans (by rw [hline])
        have hframed := ih (hreads.snoc hpush) hgrown hends
        simpa using hframed
      | done line =>
        rw [hpush] at hends
        have hnil : rest = [] := by simpa using hends
        have hwhole : line = read ++ [b] := (Partial.push_done hpush).trans (by rw [hline])
        subst hnil
        exact ⟨read, b, p, rfl, hreads, hwhole ▸ hpush⟩
  have hframed := hgen (show Partial.empty.Reads [] .empty from rfl) rfl h
  simpa using hframed

namespace Sample

def idling : List UInt8 := ascii "+ idling\r\n".toList

def exists5 : List UInt8 := ascii "* 5 EXISTS\r\n".toList

def recent : List UInt8 := ascii "* 5 RECENT\r\n".toList

def completion : List UInt8 := ascii "a1 OK done\r\n".toList

/-- The calls up to the last byte of the completion, with the keep-alive after some bytes of the notice. -/
def events (notice : List UInt8) (cut : Nat) : List Event :=
  .call :: idling.map .byte ++ (notice.take cut).map .byte ++ .elapse ::
    (notice.drop cut).map .byte ++ (completion.take 11).map .byte

def told (ok : Watcher → Event → Bool) (notice : List UInt8) (cut : Nat) : List Told × Watcher :=
  (tell ok (.start 0) (events notice cut)).getD ([], .start 0)

def keepAlive : Told := ⟨.byte 10, some completion, some .keepAlive⟩

end Sample

open Sample

def Sample.ended : Watcher := ⟨.notIdling, .returned, 1, .empty, false⟩

theorem keepAlive_swallows_nothing_recent : Silent [idling, recent, completion] (bytes []).length
      (bytes ([] ++ ((told Watcher.careful recent 12).1 ++ [keepAlive]))).length := by
  have hlines : ∀ line ∈ [idling, recent, completion], Framed line := by
    have hends : ∀ line ∈ [idling, recent, completion], Partial.empty.ends line = true := by decide +kernel
    exact fun line hline => framed_of_ends (hends line hline)
  have htell : tell Watcher.careful (Watcher.start 0) (events recent 12) =
      some (told Watcher.careful recent 12) := by decide +kernel
  have hlast : (told Watcher.careful recent 12).2.CarefulSteps keepAlive ended := by
    show _ = _ ∧ _ = _
    decide +kernel
  have hquiet : ∀ t ∈ (told Watcher.careful recent 12).1, t.outcome = none ∨ t.outcome = some .keepAlive := by decide +kernel
  exact keepAlive_swallows_nothing hlines (.nil (Watcher.start 0)) (run_of_tell htell) hlast hquiet rfl (by decide +kernel)

/-- The keep-alive elapses after `* 5 EX`.  The drain reads `ISTS`, which says nothing, and the call returns a
keep-alive for a mailbox that changed. -/
theorem keepAlive_swallows_exists : ∃ (lines : List (List UInt8)) (since : List Told) (t : Told) (w₂ w₃ : Watcher),
      (∀ line ∈ lines, Framed line) ∧ Run Watcher.Steps (Watcher.start 0) since w₂ ∧ w₂.Steps t w₃ ∧
        Quiet since ∧ t.outcome = some .keepAlive ∧ bytes (since ++ [t]) <+: lines.flatten ∧
        Change exists5 ∧ exists5 ∈ lines ∧
        ¬Silent lines 0 (bytes (since ++ [t])).length := by
  let ok : Watcher → Event → Bool := fun _ _ => true
  have hends : ∀ line ∈ [idling, exists5, completion], Partial.empty.ends line = true := by decide +kernel
  have htell : tell ok (Watcher.start 0) (events exists5 6) = some (told ok exists5 6) := by decide +kernel
  have hrun : Run Watcher.Steps (Watcher.start 0) (told ok exists5 6).1 (told ok exists5 6).2 :=
    (run_of_tell htell).mono fun _ _ _ _ h => h.1
  have hlast : (told ok exists5 6).2.Steps keepAlive ended := by
    show _ = _
    decide +kernel
  have hquiet : ∀ t ∈ (told ok exists5 6).1, t.outcome = none ∨ t.outcome = some .keepAlive := by decide +kernel
  have hchange : Change exists5 :=
    @Change.numbered ['5'] "EXISTS".toList "EXISTS" [13, 10] (by decide +kernel) (by decide +kernel) (by decide +kernel) (by decide +kernel)
      (by decide +kernel) (.inr (.inl rfl))
  refine ⟨[idling, exists5, completion], _, keepAlive, _, ended,
    fun line hline => framed_of_ends (hends line hline), hrun, hlast, hquiet, rfl, by decide +kernel, hchange,
    by simp, ?_⟩
  intro hsilent
  exact (hsilent [idling] exists5 [completion] rfl (Nat.zero_le _) (by decide +kernel)).2 hchange

end Watch
end SyncEngine
