import Pafs.Resumption.Pool

/-! What has happened so far. An invariant of a machine may speak of all steps of the run, and
with them of what each thread has done since it came. -/
namespace Resumption

variable {I : Interface} {W T L α : Type}

/-- What has been done, since one last came, under the tags that are `mine`. Labels come with
the last one first. -/
def doneSince (mine : T → Bool) : List (Label I T) → List (Event I)
  | [] => []
  | .arrive tag :: labels => if mine tag then [] else doneSince mine labels
  | .act tag e :: labels => if mine tag then doneSince mine labels ++ [e] else doneSince mine labels
  | .leave _ :: labels => doneSince mine labels

section DoneSince
variable {mine : T → Bool} {labels : List (Label I T)} {tag : T} {e : Event I}

theorem doneSince_arrive (own : mine tag = true) : doneSince mine (.arrive tag :: labels) = [] := if_pos own

theorem doneSince_arrive_other (other : mine tag = false) :
    doneSince mine (.arrive tag :: labels) = doneSince mine labels := if_neg (by simp [other])

theorem doneSince_act (own : mine tag = true) :
    doneSince mine (.act tag e :: labels) = doneSince mine labels ++ [e] := if_pos own

theorem doneSince_act_other (other : mine tag = false) :
    doneSince mine (.act tag e :: labels) = doneSince mine labels := if_neg (by simp [other])

end DoneSince

variable {M : Machine I W T α} {ok : W → Label I T → Prop} {start : W} {labels : List (Label I T)}
  {s : Config I W T α}

/-- An invariant that speaks of the steps so far, and whose proofs may use that of the protocol. -/
structure Annals (P : Protocol M ok L) where
  Inv : List (Label I T) → W → Multiset L → Prop
  arrive : ∀ {labels w tag p w' f}, M.starts w tag p w' → ok w (.arrive tag) → P.Inv w f → Inv labels w f →
    Inv (.arrive tag :: labels) w' (P.opening tag ::ₘ f)
  act : ∀ {labels w w' l f c r}, P.D.allows l c → M.perform w c r w' → ok w (.act (P.tagOf l) ⟨c, r⟩) →
    P.Inv w (l ::ₘ f) → Inv labels w (l ::ₘ f) →
    Inv (.act (P.tagOf l) ⟨c, r⟩ :: labels) w' (P.D.after l c r ::ₘ f)
  leave : ∀ {labels w l f}, P.final l → P.Inv w (l ::ₘ f) → Inv labels w (l ::ₘ f) →
    Inv (.leave (P.tagOf l) :: labels) (M.leave w (P.tagOf l)) f

/-- Both invariants hold after every run. -/
theorem Annals.matched {P : Protocol M ok L} (A : Annals P) (init : P.Inv start 0) (none : A.Inv [] start 0)
    (h : M.History ok start labels s) : P.Matched (fun w f => P.Inv w f ∧ A.Inv labels w f) s := by
  induction h with
  | init => exact ⟨[], rfl, by simp, init, none⟩
  | @step labels s s' label _ step admitted ih =>
      refine ih.step step ?_ ?_ ?_
      · rintro w tag p w' f starts rfl rfl ⟨inv, annals⟩
        obtain ⟨follows, inv'⟩ := P.start starts admitted inv
        exact ⟨follows, inv', A.arrive starts admitted inv annals⟩
      · rintro w w' l f c r allows perform rfl rfl ⟨inv, annals⟩
        obtain ⟨answers, inv'⟩ := P.act allows perform admitted inv
        exact ⟨answers, inv', A.act allows perform admitted inv annals⟩
      · rintro w l f final rfl rfl ⟨inv, annals⟩
        exact ⟨P.leave final inv, A.leave final inv annals⟩

/-- The rule for what a program keeps true of its ledger. -/
theorem Prog.Follows.keeps {D : Discipline I L} {p : Prog I α} {l : L} {Q : α → L → Prop} {J : L → Prop}
    (h : p.Follows D l Q) (now : J l)
    (step : ∀ l c r, D.allows l c → D.answers l c r → J l → J (D.after l c r)) :
    p.Follows D l fun a l' => Q a l' ∧ J l' := by
  induction p generalizing l with
  | done a => exact ⟨h, now⟩
  | call c next ih => exact ⟨h.1, fun r answers => ih r (h.2 r answers) (step l c r h.1 answers now)⟩

end Resumption
