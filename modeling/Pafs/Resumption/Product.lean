import Pafs.Resumption.Pool
import Pafs.Resumption.Routine

/-! Two ledgers for every thread. A program that follows two disciplines follows both at
once, so a protocol can be given a second ledger whose proofs use the invariant of the first. -/
namespace Resumption

variable {I : Interface} {W T L L' σ ε α β : Type}

def Discipline.prod (D : Discipline I L) (D' : Discipline I L') : Discipline I (L × L') where
  allows l c := D.allows l.1 c ∧ D'.allows l.2 c
  answers l c r := D.answers l.1 c r ∧ D'.answers l.2 c r
  after l c r := (D.after l.1 c r, D'.after l.2 c r)

theorem Discipline.run_prod (D : Discipline I L) (D' : Discipline I L') (l : L) (l' : L') (t : List (Event I)) :
    (D.prod D').run (l, l') t = (D.run l t, D'.run l' t) := by
  induction t generalizing l l' with
  | nil => rfl
  | cons e t ih => exact ih (D.after l e.1 e.2) (D'.after l' e.1 e.2)

theorem Prog.Follows.prod {D : Discipline I L} {D' : Discipline I L'} {p : Prog I α} {l : L} {l' : L'}
    {Q : α → L → Prop} {Q' : α → L' → Prop} (first : p.Follows D l Q) (second : p.Follows D' l' Q') :
    p.Follows (D.prod D') (l, l') fun a m => Q a m.1 ∧ Q' a m.2 := by
  induction p generalizing l l' with
  | done a => exact ⟨first, second⟩
  | call c next ih =>
      refine ⟨⟨first.1, second.1⟩, fun r answers => ?_⟩
      exact ih r (first.2 r answers.1) (second.2 r answers.2)

namespace Protocol

variable {M : Machine I W T α} {ok : W → Label I T → Prop}

/-- A second ledger beside the first, kept under stronger assumptions on the steps. -/
def extend (P : Protocol M ok L) {ok' : W → Label I T → Prop} (weaker : ∀ w label, ok' w label → ok w label)
    (D' : Discipline I L') (opening' : T → L') (final' : L' → Prop) (Extra : W → Multiset (L × L') → Prop)
    (start : ∀ {w tag p w' f}, M.starts w tag p w' → ok' w (.arrive tag) → P.Inv w (f.map Prod.fst) → Extra w f →
      p.Follows D' (opening' tag) (fun _ => final') ∧ Extra w' ((P.opening tag, opening' tag) ::ₘ f))
    (act : ∀ {w w' l l' f c r}, P.D.allows l c → D'.allows l' c → M.perform w c r w' →
      ok' w (.act (P.tagOf l) ⟨c, r⟩) → P.Inv w (l ::ₘ f.map Prod.fst) → Extra w ((l, l') ::ₘ f) →
      D'.answers l' c r ∧ Extra w' ((P.D.after l c r, D'.after l' c r) ::ₘ f))
    (leave : ∀ {w l l' f}, P.final l → final' l' → P.Inv w (l ::ₘ f.map Prod.fst) → Extra w ((l, l') ::ₘ f) →
      Extra (M.leave w (P.tagOf l)) f) : Protocol M ok' (L × L') where
  D := P.D.prod D'
  tagOf l := P.tagOf l.1
  opening tag := (P.opening tag, opening' tag)
  final l := P.final l.1 ∧ final' l.2
  Inv w f := P.Inv w (f.map Prod.fst) ∧ Extra w f
  tagOf_opening := P.tagOf_opening
  tagOf_after l c r := P.tagOf_after l.1 c r
  start := by
    intro w tag p w' f starts admitted inv
    obtain ⟨follows, inv'⟩ := P.start starts (weaker _ _ admitted) inv.1
    obtain ⟨follows', extra⟩ := start starts admitted inv.1 inv.2
    rw [Multiset.map_cons]
    exact ⟨follows.prod follows', inv', extra⟩
  act := by
    rintro w w' ⟨l, l'⟩ f c r ⟨allows, allows'⟩ perform admitted inv
    rw [Multiset.map_cons] at inv ⊢
    obtain ⟨answers, inv'⟩ := P.act allows perform (weaker _ _ admitted) inv.1
    obtain ⟨answers', extra⟩ := act allows allows' perform admitted inv.1 inv.2
    exact ⟨⟨answers, answers'⟩, inv', extra⟩
  leave := by
    rintro w ⟨l, l'⟩ f ⟨final, final'⟩ inv
    rw [Multiset.map_cons] at inv
    exact ⟨P.leave final inv.1, leave final final' inv.1 inv.2⟩

end Protocol

/-- Calls of a certain kind only, whatever is answered. -/
def Discipline.only (K : I.Call → Prop) : Discipline I Unit where
  allows _ c := K c
  answers _ _ _ := True
  after _ _ _ := ()

/-- What makes only calls that leave a ledger as it is leaves the ledger as it is. -/
theorem Prog.Follows.steady {K : I.Call → Prop} {D : Discipline I L} {p : Prog I α} {l : L} {Q : α → Prop}
    (calls : p.Follows (.only K) () fun a _ => Q a)
    (idle : ∀ c, K c → D.allows l c ∧ ∀ r, D.after l c r = l) : p.Follows D l fun a l' => Q a ∧ l' = l := by
  induction p with
  | done a => exact ⟨calls, rfl⟩
  | call c next ih =>
      obtain ⟨allows, same⟩ := idle c calls.1
      refine ⟨allows, fun r _ => ?_⟩
      rw [same]
      exact ih r (calls.2 r trivial)

theorem Routine.Safe.steady {K : I.Call → Prop} {D : Discipline I L} {m : Routine I σ ε β} {l : L}
    (calls : Routine.Safe (.only K) m) (idle : ∀ c, K c → D.allows l c ∧ ∀ r, D.after l c r = l) (s : σ) :
    Routine.Follows D m s l fun _ _ l' => l' = l := by
  have follows : (m s).Follows D l fun _ l' => True ∧ l' = l := Prog.Follows.steady (calls s ()) idle
  exact follows.mono fun _ _ same => same.2

end Resumption
