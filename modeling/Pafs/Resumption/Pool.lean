import Pafs.Resumption.Prog

/-! A machine that runs any number of programs at once. Threads arrive with a tag, take
turns in answering one call each against a shared world, and leave. A `Protocol` gives
every thread a ledger and says what the ledgers of all threads add up to; its invariant
then holds in every reachable configuration, whatever the order of the steps. -/
namespace Resumption

structure Thread (I : Interface) (T α : Type) where
  tag : T
  prog : Prog I α

structure Config (I : Interface) (W T α : Type) where
  world : W
  threads : List (Thread I T α)

variable {I : Interface} {W T L α : Type}

/-- Some thread makes this call next. -/
def Config.Next (s : Config I W T α) (c : I.Call) : Prop :=
  ∃ t ∈ s.threads, ∃ next, t.prog = .call c next

inductive Label (I : Interface) (T : Type) where
  | arrive (tag : T)
  | act (tag : T) (e : Event I)
  | leave (tag : T)

structure Machine (I : Interface) (W T α : Type) where
  starts : W → T → Prog I α → W → Prop
  perform : W → (c : I.Call) → I.Ret c → W → Prop
  leave : W → T → W

inductive Machine.Step (M : Machine I W T α) :
    Config I W T α → Label I T → Config I W T α → Prop
  | arrive {w w' : W} {tag : T} {p : Prog I α} {ts : List (Thread I T α)} :
      M.starts w tag p w' → M.Step ⟨w, ts⟩ (.arrive tag) ⟨w', ⟨tag, p⟩ :: ts⟩
  | act {w w' : W} {tag : T} {c : I.Call} {r : I.Ret c} {next : I.Ret c → Prog I α}
      {pre post : List (Thread I T α)} :
      M.perform w c r w' → M.Step ⟨w, pre ++ ⟨tag, .call c next⟩ :: post⟩ (.act tag ⟨c, r⟩)
        ⟨w', pre ++ ⟨tag, next r⟩ :: post⟩
  | leave {w : W} {tag : T} {a : α} {pre post : List (Thread I T α)} :
      M.Step ⟨w, pre ++ ⟨tag, .done a⟩ :: post⟩ (.leave tag) ⟨M.leave w tag, pre ++ post⟩

theorem Machine.Step.act_head {M : Machine I W T α} {w w' : W} {tag : T} {c : I.Call} {r : I.Ret c}
    {next : I.Ret c → Prog I α} {ts : List (Thread I T α)} (perform : M.perform w c r w') :
    M.Step ⟨w, ⟨tag, .call c next⟩ :: ts⟩ (.act tag ⟨c, r⟩) ⟨w', ⟨tag, next r⟩ :: ts⟩ := by
  have step : M.Step ⟨w, [] ++ ⟨tag, .call c next⟩ :: ts⟩ (.act tag ⟨c, r⟩)
      ⟨w', [] ++ ⟨tag, next r⟩ :: ts⟩ := .act perform
  exact step

theorem Machine.Step.leave_head {M : Machine I W T α} {w : W} {tag : T} {a : α}
    {ts : List (Thread I T α)} :
    M.Step ⟨w, ⟨tag, .done a⟩ :: ts⟩ (.leave tag) ⟨M.leave w tag, ts⟩ := by
  have step : M.Step ⟨w, [] ++ ⟨tag, .done a⟩ :: ts⟩ (.leave tag) ⟨M.leave w tag, [] ++ ts⟩ := .leave
  exact step

/-- The configurations reached from a world without threads by steps that `ok` admits. -/
inductive Machine.Reach (M : Machine I W T α) (ok : W → Label I T → Prop) (start : W) :
    Config I W T α → Prop
  | init : M.Reach ok start ⟨start, []⟩
  | step {s s' : Config I W T α} {label : Label I T} :
      M.Reach ok start s → M.Step s label s' → ok s.world label → M.Reach ok start s'

theorem Machine.Reach.mono {M : Machine I W T α} {ok ok' : W → Label I T → Prop} {start : W}
    {s : Config I W T α} (h : M.Reach ok start s) (weaker : ∀ w label, ok w label → ok' w label) :
    M.Reach ok' start s := by
  induction h with
  | init => exact .init
  | step _ step admitted ih => exact .step ih step (weaker _ _ admitted)

/-- The same, with the calls that every thread has had answered since it came. -/
inductive Machine.Recorded (M : Machine I W T α) (ok : W → Label I T → Prop) (start : W) :
    W → List (Thread I T α × List (Event I)) → Prop
  | init : M.Recorded ok start start []
  | arrive {w w' : W} {tag : T} {p : Prog I α} {ps : List (Thread I T α × List (Event I))} :
      M.Recorded ok start w ps → M.starts w tag p w' → ok w (.arrive tag) →
      M.Recorded ok start w' ((⟨tag, p⟩, []) :: ps)
  | act {w w' : W} {tag : T} {c : I.Call} {r : I.Ret c} {next : I.Ret c → Prog I α} {done : List (Event I)}
      {pre post : List (Thread I T α × List (Event I))} :
      M.Recorded ok start w (pre ++ (⟨tag, .call c next⟩, done) :: post) → M.perform w c r w' →
      ok w (.act tag ⟨c, r⟩) → M.Recorded ok start w' (pre ++ (⟨tag, next r⟩, done ++ [⟨c, r⟩]) :: post)
  | leave {w : W} {tag : T} {a : α} {done : List (Event I)} {pre post : List (Thread I T α × List (Event I))} :
      M.Recorded ok start w (pre ++ (⟨tag, .done a⟩, done) :: post) → ok w (.leave tag) →
      M.Recorded ok start (M.leave w tag) (pre ++ post)

/-- Every run can be recorded. -/
theorem Machine.Reach.recorded {M : Machine I W T α} {ok : W → Label I T → Prop} {start : W}
    {s : Config I W T α} (h : M.Reach ok start s) :
    ∃ ps, ps.map Prod.fst = s.threads ∧ M.Recorded ok start s.world ps := by
  induction h with
  | init => exact ⟨[], rfl, .init⟩
  | step _ step admitted ih =>
      obtain ⟨ps, threads, before⟩ := ih
      cases step with
      | arrive starts => exact ⟨_, congrArg _ threads, before.arrive starts admitted⟩
      | act perform =>
          obtain ⟨pre, rest, rfl, rfl, rest'⟩ := List.map_eq_append_iff.mp threads
          obtain ⟨⟨t, done⟩, post, rfl, rfl, rfl⟩ := List.map_eq_cons_iff.mp rest'
          exact ⟨_, by simp, before.act perform admitted⟩
      | leave =>
          obtain ⟨pre, rest, rfl, rfl, rest'⟩ := List.map_eq_append_iff.mp threads
          obtain ⟨⟨t, done⟩, post, rfl, rfl, rfl⟩ := List.map_eq_cons_iff.mp rest'
          exact ⟨_, by simp, before.leave admitted⟩

/-- The same with the labels of the steps, the last one first. -/
inductive Machine.History (M : Machine I W T α) (ok : W → Label I T → Prop) (start : W) :
    List (Label I T) → Config I W T α → Prop
  | init : M.History ok start [] ⟨start, []⟩
  | step {t : List (Label I T)} {s s' : Config I W T α} {label : Label I T} :
      M.History ok start t s → M.Step s label s' → ok s.world label →
      M.History ok start (label :: t) s'

theorem Machine.History.reach {M : Machine I W T α} {ok : W → Label I T → Prop} {start : W}
    {t : List (Label I T)} {s : Config I W T α} (h : M.History ok start t s) : M.Reach ok start s := by
  induction h with
  | init => exact .init
  | step _ step admitted ih => exact .step ih step admitted

theorem Machine.Reach.history {M : Machine I W T α} {ok : W → Label I T → Prop} {start : W}
    {s : Config I W T α} (h : M.Reach ok start s) : ∃ t, M.History ok start t s := by
  induction h with
  | init => exact ⟨[], .init⟩
  | step _ step admitted ih =>
      obtain ⟨t, before⟩ := ih
      exact ⟨_, before.step step admitted⟩

/-- From one configuration to a later one by steps with these labels, the last one first,
through configurations that all satisfy `P`. -/
inductive Machine.Path (M : Machine I W T α) (P : Config I W T α → Prop) :
    Config I W T α → List (Label I T) → Config I W T α → Prop
  | refl {s : Config I W T α} : P s → M.Path P s [] s
  | step {s s₁ s' : Config I W T α} {t : List (Label I T)} {label : Label I T} :
      M.Path P s t s₁ → M.Step s₁ label s' → P s' → M.Path P s (label :: t) s'

theorem Machine.History.path {M : Machine I W T α} {P : Config I W T α → Prop} {start : W}
    {before t : List (Label I T)} {s s' : Config I W T α} (h : M.History (fun _ _ => True) start before s)
    (path : M.Path P s t s') : M.History (fun _ _ => True) start (t ++ before) s' := by
  induction path with
  | refl _ => exact h
  | step _ step _ ih => exact ih.step step trivial

/-- The world answers a list of calls one after the other. -/
def Machine.Performs (M : Machine I W T α) : W → List (Event I) → W → Prop
  | w, [], w' => w' = w
  | w, e :: t, w' => ∃ w₁, M.perform w e.1 e.2 w₁ ∧ M.Performs w₁ t w'

/-- One thread runs for a while and the others wait. What the run keeps true of the world
helps to see that its steps are admitted. -/
theorem Machine.Reach.runWhile {M : Machine I W T α} {ok : W → Label I T → Prop} {start w w' : W}
    {tag : T} {p q : Prog I α} {ts : List (Thread I T α)} {t : List (Event I)} {P : W → Prop}
    (h : M.Reach ok start ⟨w, ⟨tag, p⟩ :: ts⟩) (steps : Steps p t q) (performs : M.Performs w t w')
    (now : P w) (keeps : ∀ w₁ w₂, ∀ e ∈ t, P w₁ → M.perform w₁ e.1 e.2 w₂ → P w₂)
    (admitted : ∀ w, P w → ∀ e ∈ t, ok w (.act tag e)) : M.Reach ok start ⟨w', ⟨tag, q⟩ :: ts⟩ := by
  induction steps generalizing w with
  | refl p =>
      cases performs
      exact h
  | @step c next r t q rest ih =>
      obtain ⟨w₁, perform, performs⟩ := performs
      have now₁ : P w₁ := keeps w w₁ ⟨c, r⟩ List.mem_cons_self now perform
      have here := Reach.step h (.act_head perform) (admitted w now _ List.mem_cons_self)
      exact ih here performs now₁ (fun w₁ w₂ e mem => keeps w₁ w₂ e (List.mem_cons_of_mem _ mem))
        fun w now e mem => admitted w now e (List.mem_cons_of_mem _ mem)

theorem Machine.Reach.run {M : Machine I W T α} {ok : W → Label I T → Prop} {start w w' : W}
    {tag : T} {p q : Prog I α} {ts : List (Thread I T α)} {t : List (Event I)}
    (h : M.Reach ok start ⟨w, ⟨tag, p⟩ :: ts⟩) (steps : Steps p t q) (performs : M.Performs w t w')
    (admitted : ∀ w, ∀ e ∈ t, ok w (.act tag e)) : M.Reach ok start ⟨w', ⟨tag, q⟩ :: ts⟩ :=
  h.runWhile (P := fun _ => True) steps performs trivial (fun _ _ _ _ _ _ => trivial)
    fun w _ => admitted w

/-- The labels of the steps of one thread. -/
def actsOf (tag : T) (t : List (Event I)) : List (Label I T) := (t.map (Label.act tag)).reverse

theorem actsOf_cons (tag : T) (e : Event I) (t : List (Event I)) (before : List (Label I T)) :
    actsOf tag (e :: t) ++ before = actsOf tag t ++ .act tag e :: before := by
  unfold actsOf
  rw [List.map_cons, List.reverse_cons, List.append_assoc]
  rfl

theorem Machine.Path.run {M : Machine I W T α} {P : W → Prop} {s : Config I W T α} {w w' : W} {tag : T}
    {p q : Prog I α} {ts : List (Thread I T α)} {labels : List (Label I T)} {t : List (Event I)}
    (h : M.Path (fun s => P s.world) s labels ⟨w, ⟨tag, p⟩ :: ts⟩) (steps : Steps p t q)
    (performs : M.Performs w t w') (now : P w)
    (keeps : ∀ w₁ w₂, ∀ e ∈ t, P w₁ → M.perform w₁ e.1 e.2 w₂ → P w₂) :
    M.Path (fun s => P s.world) s (actsOf tag t ++ labels) ⟨w', ⟨tag, q⟩ :: ts⟩ := by
  induction steps generalizing w labels with
  | refl p =>
      cases performs
      exact h
  | @step c next r t q rest ih =>
      obtain ⟨w₁, perform, performs⟩ := performs
      have now₁ : P w₁ := keeps w w₁ ⟨c, r⟩ List.mem_cons_self now perform
      have next : M.Path (fun s => P s.world) s (.act tag ⟨c, r⟩ :: labels) ⟨w₁, ⟨tag, _⟩ :: ts⟩ :=
        h.step (.act_head perform) now₁
      rw [actsOf_cons]
      exact ih next performs now₁ fun w₁ w₂ e mem => keeps w₁ w₂ e (List.mem_cons_of_mem _ mem)

theorem Machine.History.run {M : Machine I W T α} {ok : W → Label I T → Prop} {start w w' : W}
    {tag : T} {p q : Prog I α} {ts : List (Thread I T α)} {labels : List (Label I T)} {t : List (Event I)}
    (h : M.History ok start labels ⟨w, ⟨tag, p⟩ :: ts⟩) (steps : Steps p t q) (performs : M.Performs w t w')
    (admitted : ∀ w, ∀ e ∈ t, ok w (.act tag e)) :
    M.History ok start (actsOf tag t ++ labels) ⟨w', ⟨tag, q⟩ :: ts⟩ := by
  induction steps generalizing w labels with
  | refl p =>
      cases performs
      exact h
  | @step c next r t q rest ih =>
      obtain ⟨w₁, perform, performs⟩ := performs
      have next : M.History ok start (.act tag ⟨c, r⟩ :: labels) ⟨w₁, ⟨tag, _⟩ :: ts⟩ :=
        h.step (.act_head perform) (admitted w _ List.mem_cons_self)
      rw [actsOf_cons]
      exact ih next performs fun w e mem => admitted w e (List.mem_cons_of_mem _ mem)

/-- A thread comes, runs to its end and leaves. -/
theorem Machine.History.serve {M : Machine I W T α} {ok : W → Label I T → Prop} {start w w₁ w' : W}
    {tag : T} {p : Prog I α} {a : α} {ts : List (Thread I T α)} {labels : List (Label I T)} {t : List (Event I)}
    (h : M.History ok start labels ⟨w, ts⟩) (starts : M.starts w tag p w₁) (steps : Exec p t a)
    (performs : M.Performs w₁ t w') (come : ∀ w, ok w (.arrive tag))
    (admitted : ∀ w, ∀ e ∈ t, ok w (.act tag e)) (go : ∀ w, ok w (.leave tag)) :
    M.History ok start (.leave tag :: (actsOf tag t ++ .arrive tag :: labels)) ⟨M.leave w' tag, ts⟩ :=
  ((h.step (.arrive starts) (come _)).run steps performs admitted).step .leave_head (go _)

/-- A thread comes, runs to its end and leaves while the others wait. -/
theorem Machine.Reach.serve {M : Machine I W T α} {ok : W → Label I T → Prop} {start w w₁ w' : W}
    {tag : T} {p : Prog I α} {a : α} {ts : List (Thread I T α)} {t : List (Event I)}
    (h : M.Reach ok start ⟨w, ts⟩) (starts : M.starts w tag p w₁) (steps : Exec p t a)
    (performs : M.Performs w₁ t w') (come : ∀ w, ok w (.arrive tag))
    (admitted : ∀ w, ∀ e ∈ t, ok w (.act tag e)) (go : ∀ w, ok w (.leave tag)) :
    M.Reach ok start ⟨M.leave w' tag, ts⟩ :=
  ((h.step (.arrive starts) (come _)).run steps performs admitted).step .leave_head (go _)

structure Protocol (M : Machine I W T α) (ok : W → Label I T → Prop) (L : Type) where
  D : Discipline I L
  tagOf : L → T
  opening : T → L
  final : L → Prop
  Inv : W → Multiset L → Prop
  tagOf_opening : ∀ tag, tagOf (opening tag) = tag
  tagOf_after : ∀ l c r, tagOf (D.after l c r) = tagOf l
  start : ∀ {w tag p w' f}, M.starts w tag p w' → ok w (.arrive tag) → Inv w f →
    p.Follows D (opening tag) (fun _ => final) ∧ Inv w' (opening tag ::ₘ f)
  act : ∀ {w w' l f c r}, D.allows l c → M.perform w c r w' → ok w (.act (tagOf l) ⟨c, r⟩) →
    Inv w (l ::ₘ f) → D.answers l c r ∧ Inv w' (D.after l c r ::ₘ f)
  leave : ∀ {w l f}, final l → Inv w (l ::ₘ f) → Inv (M.leave w (tagOf l)) f

namespace Protocol

variable {M : Machine I W T α} {ok : W → Label I T → Prop}

/-- The ledger `l` is one the thread may continue from. -/
structure Owns (P : Protocol M ok L) (t : Thread I T α) (l : L) : Prop where
  tag : P.tagOf l = t.tag
  follows : t.prog.Follows P.D l fun _ => P.final

/-- Every thread has a ledger of its own, and together they satisfy `J`. -/
def Matched (P : Protocol M ok L) (J : W → Multiset L → Prop) (s : Config I W T α) : Prop :=
  ∃ ps : List (Thread I T α × L), ps.map Prod.fst = s.threads ∧ (∀ p ∈ ps, P.Owns p.1 p.2) ∧
    J s.world (ps.map Prod.snd : List L)

def Holds (P : Protocol M ok L) (s : Config I W T α) : Prop := P.Matched P.Inv s

variable {P : Protocol M ok L} {J : W → Multiset L → Prop} {s s' : Config I W T α} {label : Label I T}

theorem coe_map_middle {β : Type} (g : β → L) (before after : List β) (x : β) :
    ((before ++ x :: after).map g : Multiset L) = g x ::ₘ ((before ++ after).map g : List L) := by
  rw [List.map_append, List.map_cons, List.map_append, Multiset.cons_coe, Multiset.coe_eq_coe]
  exact List.perm_middle

/-- Every thread of a configuration can be looked at next to all the others. -/
theorem Matched.split {w : W} {pre post : List (Thread I T α)} {t : Thread I T α}
    (h : P.Matched J ⟨w, pre ++ t :: post⟩) :
    ∃ (before after : List (Thread I T α × L)) (l : L), before.map Prod.fst = pre ∧ after.map Prod.fst = post ∧
      (∀ p ∈ before ++ after, P.Owns p.1 p.2) ∧ P.Owns t l ∧
      J w (l ::ₘ ((before ++ after).map Prod.snd : List L)) := by
  obtain ⟨ps, threads, owns, inv⟩ := h
  obtain ⟨before, rest, rfl, hpre, hrest⟩ := List.map_eq_append_iff.mp threads
  obtain ⟨⟨t', l⟩, after, rfl, rfl, hpost⟩ := List.map_eq_cons_iff.mp hrest
  refine ⟨before, after, l, hpre, hpost, ?_, ?_, ?_⟩
  · intro p hp
    apply owns
    simp only [List.mem_append, List.mem_cons] at hp ⊢
    tauto
  · exact owns (t', l) (by simp)
  · rw [← coe_map_middle Prod.snd before after (t', l)]
    exact inv

theorem Matched.join {w : W} {before after : List (Thread I T α × L)} {t : Thread I T α} {l : L}
    (owns : ∀ p ∈ before ++ after, P.Owns p.1 p.2) (own : P.Owns t l)
    (inv : J w (l ::ₘ ((before ++ after).map Prod.snd : List L))) :
    P.Matched J ⟨w, before.map Prod.fst ++ t :: after.map Prod.fst⟩ := by
  refine ⟨before ++ (t, l) :: after, by simp, ?_, ?_⟩
  · intro p hp
    simp only [List.mem_append, List.mem_cons] at hp
    rcases hp with hp | rfl | hp
    · exact owns p (List.mem_append_left _ hp)
    · exact own
    · exact owns p (List.mem_append_right _ hp)
  · change J w ((before ++ (t, l) :: after).map Prod.snd : List L)
    rw [coe_map_middle]
    exact inv

theorem Holds.split {w : W} {pre post : List (Thread I T α)} {t : Thread I T α}
    (h : P.Holds ⟨w, pre ++ t :: post⟩) :
    ∃ (before after : List (Thread I T α × L)) (l : L), before.map Prod.fst = pre ∧ after.map Prod.fst = post ∧
      (∀ p ∈ before ++ after, P.Owns p.1 p.2) ∧ P.Owns t l ∧
      P.Inv w (l ::ₘ ((before ++ after).map Prod.snd : List L)) := Matched.split h

/-- If one step of a thread keeps `J`, with the ledgers that go with it, so does the machine. -/
theorem Matched.step {J' : W → Multiset L → Prop} (h : P.Matched J s) (step : M.Step s label s')
    (start : ∀ {w tag p w' f}, M.starts w tag p w' → label = .arrive tag → w = s.world → J w f →
      p.Follows P.D (P.opening tag) (fun _ => P.final) ∧ J' w' (P.opening tag ::ₘ f))
    (act : ∀ {w w' l f c r}, P.D.allows l c → M.perform w c r w' → label = .act (P.tagOf l) ⟨c, r⟩ →
      w = s.world → J w (l ::ₘ f) → P.D.answers l c r ∧ J' w' (P.D.after l c r ::ₘ f))
    (leave : ∀ {w l f}, P.final l → label = .leave (P.tagOf l) → w = s.world → J w (l ::ₘ f) →
      J' (M.leave w (P.tagOf l)) f) : P.Matched J' s' := by
  cases step with
  | @arrive w w' tag p ts starts =>
      obtain ⟨ps, threads, owns, inv⟩ := h
      obtain ⟨follows, inv'⟩ := start starts rfl rfl inv
      refine ⟨(⟨tag, p⟩, P.opening tag) :: ps, by simp [threads], ?_, ?_⟩
      · intro q hq
        rcases List.mem_cons.mp hq with rfl | hq
        · exact ⟨P.tagOf_opening tag, follows⟩
        · exact owns q hq
      · simpa using inv'
  | @act w w' tag c r next pre post perform =>
      obtain ⟨before, after, l, rfl, rfl, owns, own, inv⟩ := h.split
      obtain ⟨htag, follows⟩ := own
      obtain ⟨answers, inv'⟩ := act follows.1 perform (by rw [htag]) rfl inv
      refine Matched.join owns ⟨?_, follows.2 r answers⟩ inv'
      rw [P.tagOf_after, htag]
  | @leave w tag a pre post =>
      obtain ⟨before, after, l, rfl, rfl, owns, own, inv⟩ := h.split
      have inv' := leave own.follows (by rw [own.tag]) rfl inv
      rw [own.tag] at inv'
      exact ⟨before ++ after, by simp, owns, inv'⟩

/-- One step keeps the protocol. -/
theorem Holds.step (h : P.Holds s) (step : M.Step s label s') (admitted : ok s.world label) :
    P.Holds s' := by
  refine Matched.step h step ?_ ?_ ?_
  · rintro w tag p w' f starts rfl rfl inv
    exact P.start starts admitted inv
  · rintro w w' l f c r allows perform rfl rfl inv
    exact P.act allows perform admitted inv
  · rintro w l f final - - inv
    exact P.leave final inv

/-- The invariant rule: what holds of the empty machine and is kept by every step holds
in every configuration that is reached. -/
theorem holds_of_reach {start : W} (P : Protocol M ok L) (init : P.Inv start 0)
    (h : M.Reach ok start s) : P.Holds s := by
  induction h with
  | init => exact ⟨[], rfl, by simp, init⟩
  | step _ step admitted ih => exact ih.step step admitted

/-- The ledger that a thread has by the calls it has made. -/
def ledger (P : Protocol M ok L) (p : Thread I T α × List (Event I)) : L := P.D.run (P.opening p.1.tag) p.2

/-- In a recorded run every thread has the ledger that goes with its calls. -/
theorem holds_of_recorded {start w : W} {ps : List (Thread I T α × List (Event I))} (P : Protocol M ok L)
    (init : P.Inv start 0) (h : M.Recorded ok start w ps) :
    (∀ p ∈ ps, P.Owns p.1 (P.ledger p)) ∧ P.Inv w (ps.map P.ledger : List L) := by
  induction h with
  | init => exact ⟨fun p mem => absurd mem List.not_mem_nil, init⟩
  | @arrive w w' tag p ps _ starts admitted ih =>
      obtain ⟨owns, inv⟩ := ih
      obtain ⟨follows, inv'⟩ := P.start starts admitted inv
      refine ⟨fun q mem => ?_, inv'⟩
      rcases List.mem_cons.mp mem with rfl | mem
      · exact ⟨P.tagOf_opening tag, follows⟩
      · exact owns q mem
  | @act w w' tag c r next done pre post _ perform admitted ih =>
      obtain ⟨owns, inv⟩ := ih
      obtain ⟨htag, follows⟩ := owns (⟨tag, .call c next⟩, done) (by simp)
      rw [coe_map_middle] at inv ⊢
      obtain ⟨answers, inv'⟩ := P.act follows.1 perform (by rw [htag]; exact admitted) inv
      have after : P.ledger (⟨tag, next r⟩, done ++ [⟨c, r⟩]) =
          P.D.after (P.ledger (⟨tag, .call c next⟩, done)) c r := P.D.run_concat ..
      rw [after]
      refine ⟨fun q mem => ?_, inv'⟩
      rcases List.mem_append.mp mem with mem | mem
      · exact owns q (List.mem_append_left _ mem)
      · rcases List.mem_cons.mp mem with rfl | mem
        · rw [after]
          exact ⟨(P.tagOf_after ..).trans htag, follows.2 r answers⟩
        · exact owns q (List.mem_append_right _ (List.mem_cons_of_mem _ mem))
  | @leave w tag a done pre post _ admitted ih =>
      obtain ⟨owns, inv⟩ := ih
      have own := owns (⟨tag, .done a⟩, done) (by simp)
      rw [coe_map_middle] at inv
      have inv' := P.leave own.follows inv
      rw [own.tag] at inv'
      refine ⟨fun q mem => owns q ?_, inv'⟩
      rcases List.mem_append.mp mem with mem | mem
      · exact List.mem_append_left _ mem
      · exact List.mem_append_right _ (List.mem_cons_of_mem _ mem)

theorem Holds.inv (h : P.Holds s) : ∃ f, P.Inv s.world f := by
  obtain ⟨ps, -, -, inv⟩ := h
  exact ⟨_, inv⟩

theorem Holds.quiescent (h : P.Holds s) (quiet : s.threads = []) : P.Inv s.world 0 := by
  obtain ⟨ps, threads, -, inv⟩ := h
  rw [quiet, List.map_eq_nil_iff] at threads
  subst threads
  exact inv

/-- What a thread is about to do is allowed, and the invariant relates it to the world. -/
theorem Holds.next {c : I.Call} (h : P.Holds s) (next : s.Next c) :
    ∃ l f, P.D.allows l c ∧ P.Inv s.world (l ::ₘ f) := by
  obtain ⟨t, mem, next, prog⟩ := next
  obtain ⟨w, threads⟩ := s
  obtain ⟨pre, post, rfl⟩ := List.append_of_mem mem
  obtain ⟨before, after, l, rfl, rfl, -, own, inv⟩ := h.split
  have follows := own.follows
  rw [prog] at follows
  exact ⟨l, _, follows.1, inv⟩

theorem Owns.allows {t : Thread I T α} {l : L} {c : I.Call} {next : I.Ret c → Prog I α} (h : P.Owns t l)
    (prog : t.prog = .call c next) : P.D.allows l c := by
  have follows := h.follows
  rw [prog] at follows
  exact follows.1

/-- One thread among the others. -/
theorem Holds.of_mem {t : Thread I T α} (h : P.Holds s) (mem : t ∈ s.threads) :
    ∃ l f, P.Owns t l ∧ P.Inv s.world (l ::ₘ f) := by
  obtain ⟨w, threads⟩ := s
  obtain ⟨pre, post, rfl⟩ := List.append_of_mem mem
  obtain ⟨before, after, l, -, -, -, own, inv⟩ := h.split
  exact ⟨l, _, own, inv⟩

/-- Two threads can be looked at next to all the others. -/
theorem Holds.two {w : W} {pre mid post : List (Thread I T α)} {t t' : Thread I T α}
    (h : P.Holds ⟨w, pre ++ t :: (mid ++ t' :: post)⟩) :
    ∃ l l' f, P.Owns t l ∧ P.Owns t' l' ∧ P.Inv w (l ::ₘ l' ::ₘ f) := by
  obtain ⟨before, after, l, -, rest, owns, own, inv⟩ := h.split
  obtain ⟨between, tail, rfl, -, rest⟩ := List.map_eq_append_iff.mp rest
  obtain ⟨⟨t', l'⟩, last, rfl, rfl, -⟩ := List.map_eq_cons_iff.mp rest
  refine ⟨l, l', ((before ++ between ++ last).map Prod.snd : List L), own, ?_, ?_⟩
  · exact owns (t', l') (by simp)
  · have moved := coe_map_middle Prod.snd (before ++ between) last (t', l')
    rw [← List.append_assoc, moved] at inv
    exact inv

/-- A second invariant over the same ledgers, kept under stronger assumptions on the steps;
its proofs may use the first one. -/
def strengthen (P : Protocol M ok L) {ok' : W → Label I T → Prop}
    (weaker : ∀ w label, ok' w label → ok w label) (Extra : W → Multiset L → Prop)
    (start : ∀ {w tag p w' f}, M.starts w tag p w' → ok' w (.arrive tag) → P.Inv w f →
      Extra w f → Extra w' (P.opening tag ::ₘ f))
    (act : ∀ {w w' l f c r}, P.D.allows l c → M.perform w c r w' →
      ok' w (.act (P.tagOf l) ⟨c, r⟩) → P.Inv w (l ::ₘ f) → Extra w (l ::ₘ f) →
      Extra w' (P.D.after l c r ::ₘ f))
    (leave : ∀ {w l f}, P.final l → P.Inv w (l ::ₘ f) → Extra w (l ::ₘ f) →
      Extra (M.leave w (P.tagOf l)) f) : Protocol M ok' L where
  D := P.D
  tagOf := P.tagOf
  opening := P.opening
  final := P.final
  Inv w f := P.Inv w f ∧ Extra w f
  tagOf_opening := P.tagOf_opening
  tagOf_after := P.tagOf_after
  start := fun starts admitted inv =>
    have base := P.start starts (weaker _ _ admitted) inv.1
    ⟨base.1, base.2, start starts admitted inv.1 inv.2⟩
  act := fun allows perform admitted inv =>
    have base := P.act allows perform (weaker _ _ admitted) inv.1
    ⟨base.1, base.2, act allows perform admitted inv.1 inv.2⟩
  leave := fun final inv => ⟨P.leave final inv.1, leave final inv.1 inv.2⟩

/-- Only threads with certain tags are let in. -/
def restrict (P : Protocol M ok L) (R : T → Prop) {ok' : W → Label I T → Prop}
    (weaker : ∀ w label, ok' w label → ok w label) (arrives : ∀ w tag, ok' w (.arrive tag) → R tag) :
    Protocol M ok' L :=
  P.strengthen weaker (fun _ f => ∀ l ∈ f, R (P.tagOf l))
    (by
      intro w tag p w' f _ admitted _ h l mem
      rcases Multiset.mem_cons.mp mem with rfl | mem
      · rw [P.tagOf_opening]
        exact arrives w tag admitted
      · exact h l mem)
    (by
      intro w w' l f c r _ _ _ _ h m mem
      rcases Multiset.mem_cons.mp mem with rfl | mem
      · rw [P.tagOf_after]
        exact h l (Multiset.mem_cons_self l f)
      · exact h m (Multiset.mem_cons_of_mem mem))
    (by
      intro w l f _ _ h m mem
      exact h m (Multiset.mem_cons_of_mem mem))

end Protocol

/-- A machine with an observer beside it, who notes what he sees of every step. -/
def Machine.observed {G : Type} (M : Machine I W T α) (arrive : W → T → G → G → Prop)
    (act : G → (c : I.Call) → I.Ret c → G) : Machine I (W × G) T α where
  starts x tag p x' := M.starts x.1 tag p x'.1 ∧ arrive x.1 tag x.2 x'.2
  perform x c r x' := M.perform x.1 c r x'.1 ∧ x'.2 = act x.2 c r
  leave x tag := (M.leave x.1 tag, x.2)

theorem Machine.Performs.observed {G : Type} {M : Machine I W T α} {arrive : W → T → G → G → Prop}
    {act : G → (c : I.Call) → I.Ret c → G} {w w' : W} {t : List (Event I)} (h : M.Performs w t w')
    (g : G) : (M.observed arrive act).Performs (w, g) t
      (w', t.foldl (fun g e => act g e.1 e.2) g) := by
  induction t generalizing w g with
  | nil =>
      cases h
      rfl
  | cons e t ih =>
      obtain ⟨w₁, perform, rest⟩ := h
      exact ⟨(w₁, act g e.1 e.2), ⟨perform, rfl⟩, ih rest _⟩

/-- What the observer notes along a run of steps that keep `P` true of his notes. -/
theorem Machine.Reach.observe {G : Type} {M : Machine I W T α} {ok : W → Label I T → Prop}
    {arrive : W → T → G → G → Prop} {act : G → (c : I.Call) → I.Ret c → G} {P : G → Prop} {start : W}
    {s : Config I W T α} {g : G} (h : M.Reach ok start s) (now : P g)
    (arrives : ∀ w tag g, ok w (.arrive tag) → P g → ∃ g', arrive w tag g g' ∧ P g')
    (acts : ∀ w tag e g, ok w (.act tag e) → P g → P (act g e.1 e.2)) :
    ∃ g', P g' ∧ (M.observed arrive act).Reach (fun x label => ok x.1 label) (start, g)
      ⟨(s.world, g'), s.threads⟩ := by
  induction h with
  | init => exact ⟨g, now, .init⟩
  | step before step admitted ih =>
      obtain ⟨g', noted, before'⟩ := ih
      cases step with
      | arrive starts =>
          obtain ⟨g'', comes, noted'⟩ := arrives _ _ g' admitted noted
          exact ⟨g'', noted', before'.step (.arrive ⟨starts, comes⟩) admitted⟩
      | act perform =>
          exact ⟨_, acts _ _ _ g' admitted noted, before'.step (.act ⟨perform, rfl⟩) admitted⟩
      | leave => exact ⟨g', noted, before'.step .leave admitted⟩

/-- The observer does not disturb the machine. -/
def Protocol.observed {G : Type} {M : Machine I W T α} {ok : W → Label I T → Prop}
    (P : Protocol M ok L) (arrive : W → T → G → G → Prop) (act : G → (c : I.Call) → I.Ret c → G) :
    Protocol (M.observed arrive act) (fun x label => ok x.1 label) L where
  D := P.D
  tagOf := P.tagOf
  opening := P.opening
  final := P.final
  Inv x f := P.Inv x.1 f
  tagOf_opening := P.tagOf_opening
  tagOf_after := P.tagOf_after
  start := fun starts admitted inv => P.start starts.1 admitted inv
  act := fun allows perform admitted inv => P.act allows perform.1 admitted inv
  leave := fun final inv => P.leave final inv

/-- What all ledgers together hold of a resource. -/
def total (g : L → Nat) (f : Multiset L) : Nat := (f.map g).sum

@[simp] theorem total_zero (g : L → Nat) : total g 0 = 0 := rfl

@[simp] theorem total_cons (g : L → Nat) (l : L) (f : Multiset L) :
    total g (l ::ₘ f) = g l + total g f := by
  simp [total]

theorem total_eq_zero {g : L → Nat} {f : Multiset L} (h : ∀ l ∈ f, g l = 0) : total g f = 0 := by
  apply Multiset.sum_eq_zero
  intro n mem
  obtain ⟨l, hl, rfl⟩ := Multiset.mem_map.mp mem
  exact h l hl

theorem le_total_of_mem {g : L → Nat} {l : L} {f : Multiset L} (h : l ∈ f) : g l ≤ total g f := by
  obtain ⟨rest, rfl⟩ := Multiset.exists_cons_of_mem h
  simp

end Resumption
