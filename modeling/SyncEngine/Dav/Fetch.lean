import SyncEngine.Dav.Shared

/-!
# What a fetch brings

The adapter's program from the claim's cursor on, with everything the others may do between its requests.
A context `C` that survives what the others do holds at the end; what the answers say is put together as
they come.
-/

namespace SyncEngine
namespace Dav

open Journal
open Setting

variable {ε : Type} {sv : Server} {c : Synced ε} {mode : Mode} {i lo : Nat}
variable {C : World ε → Prop} {w : World ε}

/-- What happens beside the pass `i` leaves the context as it is. -/
def Lasts (sv : Server) (c : Synced ε) (mode : Mode) (i : Nat) (C : World ε → Prop) : Prop :=
  ∀ w w', (setting sv c mode).rely i w w' → Inv sv c w' → C w → C w'

theorem safe_of_held {lo : Nat} {w w' : World ε} (h : w'.held c.scope = w.held c.scope)
    (x : Exchange (Request ε) Request.Answer) : Safe c lo ⟨w, x, w'⟩ := by
  intro k hsome hnone
  rw [h] at hnone
  rw [hnone] at hsome
  exact nomatch hsome

theorem meets_silent {q : Request ε} (hq : ∀ w a w', sv.Serves i w q a w' → w' = w)
    (hC : Lasts sv c mode i C) (hw : C w) {P : q.Answer → World ε → Prop}
    (hP : ∀ a w', w.log <+: w'.log → C w' → (setting sv c mode).serves i w' q a w' → P a w') :
    (setting sv c mode).Meets i (Safe c lo) P (send q) w := by
  refine meets_request ?_
  intro w₁ hrely hinv a w₂ hserves
  have hsame := hq w₁ a w₂ hserves.1
  subst hsame
  refine ⟨hinv, fun j _ => (setting sv c mode).refl j w₂, safe_of_held rfl _, ?_⟩
  exact hP a w₂ hrely.1.log (hC w w₂ hrely hinv hw) hserves

/-! ## Bodies -/

theorem names_filled {report fetched : MultiStatus} (h : (report.responses.map fun r => pathKey r.href).Nodup) :
    (report.filled fetched).names = report.names := by
  unfold MultiStatus.names
  rw [filled_responses fetched h, List.flatMap_map]
  refine List.flatMap_congr fun r _ => ?_
  exact hrefs_foldl_fillOne fetched.responses r

theorem nodup_filled {report fetched : MultiStatus} (h : (report.responses.map fun r => pathKey r.href).Nodup) :
    ((report.filled fetched).responses.map fun r => pathKey r.href).Nodup := by
  rw [filled_responses fetched h, List.map_map]
  have hsame : (fun r : DavResponse => pathKey r.href) ∘
      (fun r => fetched.responses.foldl fillOne r) = fun r => pathKey r.href := by
    funext r
    simp [DavResponse.href, hrefs_foldl_fillOne]
  rw [hsame]
  exact h

/-- A report whose bodies have come. -/
structure Completed (sv : Server) (m : Nat) (report ms : MultiStatus) (w : World ε) :
    Prop where
  token : ms.syncToken = report.syncToken
  names : ms.names = report.names
  filled : ∀ r ∈ ms.responses, sv.Filled w.log m r

/-- How a part of the adapter ends: in its context, without failing where everybody obliges, and with
what it is for. -/
def Ends (mode : Mode) (C : World ε → Prop) {α : Type} (Q : α → World ε → Prop)
    (r : Except CalDavError α) (w : World ε) : Prop :=
  C w ∧ (mode.obliging = true → r.isOk = true) ∧ ∀ a, r = .ok a → Q a w

theorem meets_fillBatches (hC : Lasts sv c mode i C) {m : Nat} (order : List (List String))
    (report : MultiStatus) (hw : C w) (hm : m ≤ w.log.length)
    (hnodup : (report.responses.map fun r => pathKey r.href).Nodup)
    (hwait : ∀ r ∈ report.responses, sv.Waiting w.log m order.flatten r) :
    (setting sv c mode).Meets i (Safe c lo) (Ends mode C (Completed sv m report))
      (fillBatches report order : Adapter ε MultiStatus).run w := by
  induction order generalizing report w with
  | nil =>
    refine ⟨hw, fun _ => rfl, ?_⟩
    intro ms he
    obtain rfl := Except.ok.inj he
    refine ⟨rfl, rfl, ?_⟩
    intro r hr
    rcases hwait r hr with hf | ⟨h, hp, -⟩
    · exact hf
    · exact absurd hp List.not_mem_nil
  | cons hrefs rest ih =>
    refine meets_bind_except (meets_silent ?_ hC hw ?_)
    · intro w a w' hs
      cases hs <;> rfl
    · intro a w' hlog hw' hserves
      cases a with
      | error e =>
        refine ⟨hw', ?_, fun _ he => nomatch he⟩
        intro ho
        exact hserves.2.2.2.1 ho
      | ok fetched =>
        have hbodies : sv.Bodies w'.log hrefs fetched := by
          cases hserves.1 with
          | multiget _ _ hb => exact hb
        have hm' := Nat.le_trans hm hlog.length_le
        refine (ih (report.filled fetched) hw' hm' (nodup_filled hnodup) ?_).mono ?_
        · intro r hr
          rw [filled_responses fetched hnodup] at hr
          obtain ⟨r₀, hr₀, rfl⟩ := List.mem_map.mp hr
          exact ((hwait r₀ hr₀).grow hlog hm).fill hbodies hm'
        · intro r w'' ⟨hw'', hok, hends⟩
          refine ⟨hw'', hok, ?_⟩
          intro ms he
          obtain ⟨htoken, hnames, hfilled⟩ := hends ms he
          exact ⟨htoken, hnames.trans (names_filled hnodup), hfilled⟩

theorem meets_fillBodies (hC : Lasts sv c mode i C) {m : Nat} (report : MultiStatus) (hw : C w)
    (hm : m ≤ w.log.length) (htrue : sv.Truthful (w.log.take m) report) :
    (setting sv c mode).Meets i (Safe c lo) (Ends mode C (Completed sv m report))
      (fillBodies sv.collection report : Adapter ε MultiStatus).run w := by
  have hwait : ∀ r ∈ report.responses, sv.Waiting w.log m (report.missing sv.collection) r := by
    intro r hr
    refine (htrue.tells r hr).waiting hm ?_
    intro hmem hdata
    refine List.mem_map.mpr ⟨r, List.mem_filter.mpr ⟨hr, ?_⟩, rfl⟩
    rw [hmem, hdata]
    rfl
  unfold fillBodies
  by_cases he : (report.missing sv.collection).isEmpty = true
  · rw [if_pos he]
    rw [List.isEmpty_iff] at he
    rw [he] at hwait
    exact meets_fillBatches hC [] report hw hm htrue.once hwait
  · rw [if_neg he]
    refine meets_bind_except ?_
    show (setting sv c mode).Meets i (Safe c lo) _ (Except.ok <$> send (.arrivals _)) w
    rw [map_eq_pure_bind]
    refine meets_bind (meets_silent ?_ hC hw ?_)
    · intro w a w' hs
      cases hs
      rfl
    · intro order w' hlog hw' hserves
      have hperm : order.Perm (chunks batch (report.missing sv.collection)) := by
        cases hserves.1 with
        | arrivals _ _ hperm => exact hperm
      refine meets_fillBatches hC order report hw' (Nat.le_trans hm hlog.length_le) htrue.once ?_
      intro r hr
      have hmem : ∀ h, h ∈ report.missing sv.collection → h ∈ order.flatten := by
        intro h hh
        rw [hperm.flatten.mem_iff, flatten_chunks (by decide)]
        exact hh
      rcases (hwait r hr).grow hlog hm with hf | ⟨h, hp, hb⟩
      · exact .inl hf
      · exact .inr ⟨h, hmem h hp, hb⟩

end Dav
end SyncEngine
