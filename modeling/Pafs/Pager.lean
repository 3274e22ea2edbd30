import Mathlib

/-! Reading a list page by page. A page has room for so much, and takes elements as long
as they fit; the next page starts after the element whose cookie is handed in. -/
namespace Pager

variable {α κ : Type}

section Fitting
variable (size : α → Nat)

/-- The longest prefix with a total size of at most `room`. -/
def fitting : Nat → List α → List α
  | _, [] => []
  | room, x :: xs => if size x ≤ room then x :: fitting (room - size x) xs else []

variable {size} {room : Nat} {x : α} {xs : List α}

theorem fitting_cons_of_le (h : size x ≤ room) :
    fitting size room (x :: xs) = x :: fitting size (room - size x) xs := if_pos h

theorem fitting_cons_of_lt (h : room < size x) : fitting size room (x :: xs) = [] :=
  if_neg (Nat.not_le.mpr h)

theorem fitting_prefix (size : α → Nat) (room : Nat) (xs : List α) : fitting size room xs <+: xs := by
  induction xs generalizing room with
  | nil => exact List.prefix_rfl
  | cons x xs ih =>
      unfold fitting
      split
      · exact List.cons_prefix_cons.mpr ⟨rfl, ih _⟩
      · exact List.nil_prefix

/-- A page is empty only if nothing is left or the first element does not fit. -/
theorem fitting_eq_nil (h : fitting size room xs = []) (first : ∀ x, xs.head? = some x → size x ≤ room) :
    xs = [] := by
  cases xs with
  | nil => rfl
  | cons x xs =>
      rw [fitting_cons_of_le (first x rfl)] at h
      cases h

end Fitting

section Cookies
variable [DecidableEq κ] (cookie : α → κ) (origin : κ)

/-- What comes after the element with this cookie; after `origin` comes everything. -/
def following (xs : List α) (c : κ) : List α :=
  if c = origin then xs else (xs.dropWhile (cookie · ≠ c)).tail

/-- The cookie to go on with after a page. -/
def next (c : κ) (page : List α) : κ := (page.getLast?.map cookie).getD c

variable {cookie origin} {xs done rest page : List α}

theorem following_append {x : α} (distinct : (xs.map cookie).Nodup) (proper : origin ∉ xs.map cookie)
    (split : xs = done ++ x :: rest) : following cookie origin xs (cookie x) = rest := by
  subst split
  have notOrigin : cookie x ≠ origin := by
    rintro rfl
    simp at proper
  have earlier : ∀ y ∈ done, cookie y ≠ cookie x := by
    intro y mem same
    rw [List.map_append, List.nodup_append] at distinct
    exact distinct.2.2 (cookie y) (List.mem_map_of_mem mem) (cookie x) (by simp) same
  unfold following
  rw [if_neg notOrigin, List.dropWhile_append_of_pos (by simpa using earlier),
    List.dropWhile_cons_of_neg (by simp), List.tail_cons]

/-- After a page comes what the page left over. -/
theorem following_next (distinct : (xs.map cookie).Nodup) (proper : origin ∉ xs.map cookie) {c : κ}
    (split : xs = done ++ page ++ rest) (now : following cookie origin xs c = page ++ rest) :
    following cookie origin xs (next cookie c page) = rest := by
  rcases page.eq_nil_or_concat with rfl | ⟨init, x, rfl⟩
  · exact now
  · rw [List.concat_eq_append] at split ⊢
    have last : next cookie c (init ++ [x]) = cookie x := by simp [next]
    rw [last]
    have split' : xs = (done ++ init) ++ x :: rest := by
      rw [split]
      simp
    exact following_append distinct proper split'

variable (size : α → Nat) (cookie origin xs)

/-- Pages of the given rooms, one after the other, each large enough for the next element. -/
inductive Pages : κ → List (List α) → Prop
  | none (c : κ) : Pages c []
  | page {c : κ} {room : Nat} {pages : List (List α)} :
      (∀ x, (following cookie origin xs c).head? = some x → size x ≤ room) →
      Pages (next cookie c (fitting size room (following cookie origin xs c))) pages →
      Pages c (fitting size room (following cookie origin xs c) :: pages)

variable {size cookie origin xs}

/-- The pages go on from where the first one starts: together they are a prefix of what is
left, they are the whole of it before an empty page, and without an empty one there are no
more pages than elements left. -/
theorem Pages.tile (distinct : (xs.map cookie).Nodup) (proper : origin ∉ xs.map cookie) {c : κ}
    {pages : List (List α)} (h : Pages cookie origin xs size c pages) (split : xs = done ++ rest)
    (now : following cookie origin xs c = rest) :
    pages.flatten <+: rest ∧ (∀ before after, pages = before ++ [] :: after → before.flatten = rest) ∧
      ([] ∉ pages → pages.length ≤ rest.length) := by
  induction h generalizing done rest with
  | none c =>
      refine ⟨List.nil_prefix, fun before after none => ?_, fun _ => Nat.zero_le _⟩
      cases before <;> cases none
  | @page c room pages first pages' ih =>
      subst now
      obtain ⟨left, cut⟩ := fitting_prefix size room (following cookie origin xs c)
      have split' : xs = (done ++ fitting size room (following cookie origin xs c)) ++ left := by
        rw [List.append_assoc, cut]
        exact split
      have now' := following_next distinct proper split' cut.symm
      obtain ⟨tile, whole, few⟩ := ih split' now'
      refine ⟨?_, fun before after empty => ?_, fun nonempty => ?_⟩
      · rw [List.flatten_cons]
        nth_rewrite 2 [← cut]
        exact (List.prefix_append_right_inj _).mpr tile
      · cases before with
        | nil =>
            have here : fitting size room (following cookie origin xs c) = [] := (List.cons.inj empty).1
            rw [fitting_eq_nil here first]
            rfl
        | cons q before =>
            obtain ⟨rfl, later⟩ := List.cons.inj empty
            rw [List.flatten_cons, whole before after later, cut]
      · have some : 0 < (fitting size room (following cookie origin xs c)).length :=
          List.length_pos_iff.mpr fun none => nonempty (none ▸ List.mem_cons_self)
        have fewer := few fun mem => nonempty (List.mem_cons_of_mem _ mem)
        have lengths := congrArg List.length cut
        rw [List.length_append] at lengths
        rw [List.length_cons]
        omega

end Cookies

end Pager
