/-!
# ChipEight.Proofs.Nesting — calls and returns as parentheses

A history of calls and returns, looked at without a machine.  `Balanced` histories close every call
that they open, and `Pending` takes a history apart into the calls that are still open, each
followed by a balanced piece.  Main statement: a stack of return addresses that follows a history
holds those of the pending calls, in order (`pending_iff_follow`).
-/

namespace ChipEight

/-- A call made at an address, or a return. -/
inductive Turn where
  | call (p : Nat)
  | ret

namespace Turn

/-- Every call is matched by a return, and every return by a call. -/
inductive Balanced : List Turn → Prop
  | nil : Balanced []
  | nest {p : Nat} {body rest : List Turn} (hb : Balanced body) (hr : Balanced rest) :
      Balanced (.call p :: (body ++ .ret :: rest))

/-- The calls, made at the given addresses, that no return matches. -/
inductive Pending : List Turn → List Nat → Prop
  | none {h : List Turn} (hb : Balanced h) : Pending h []
  | more {h body : List Turn} {ps : List Nat} {p : Nat} (hp : Pending h ps) (hb : Balanced body) :
      Pending (h ++ .call p :: body) (ps ++ [p])

/-- The return addresses in use after a history, unless it returns with none in use. -/
def follow (s : List Nat) : List Turn → Option (List Nat)
  | [] => some s
  | .call p :: h => follow (s ++ [p + 2]) h
  | .ret :: h => if s = [] then none else follow s.dropLast h

variable {h h' : List Turn} {ps : List Nat} {p : Nat}

/-! ### Putting histories together -/

theorem follow_append (s : List Nat) (h h' : List Turn) :
    follow s (h ++ h') = (follow s h).bind fun s' => follow s' h' := by
  induction h generalizing s with
  | nil => rfl
  | cons t h ih =>
    cases t with
    | call p => exact ih _
    | ret =>
      by_cases hs : s = []
      · simp [follow, hs]
      · simp only [List.cons_append, follow, if_neg hs]
        exact ih _

theorem Balanced.append (hb : Balanced h) (hb' : Balanced h') : Balanced (h ++ h') := by
  induction hb with
  | nil => exact hb'
  | @nest p body rest hbody _ _ ih =>
    have e : Turn.call p :: (body ++ .ret :: rest) ++ h' =
        .call p :: (body ++ .ret :: (rest ++ h')) := by simp
    rw [e]
    exact .nest hbody ih

theorem Pending.append (hp : Pending h ps) (hb : Balanced h') : Pending (h ++ h') ps := by
  cases hp with
  | none hb₀ => exact .none (hb₀.append hb)
  | more hp hb₀ =>
    rw [List.append_assoc, List.cons_append]
    exact .more hp (hb₀.append hb)

theorem Pending.call (hp : Pending h ps) (p : Nat) : Pending (h ++ [.call p]) (ps ++ [p]) :=
  .more hp .nil

/-- The latest pending call, the history before it and the balanced piece since. -/
theorem Pending.last (hp : Pending h (ps ++ [p])) :
    ∃ h₀ body, h = h₀ ++ .call p :: body ∧ Pending h₀ ps ∧ Balanced body := by
  generalize hq : ps ++ [p] = qs at hp
  cases hp with
  | none => simp at hq
  | @more h₀ body ps' p' hp hb =>
    obtain ⟨rfl, rfl⟩ := List.append_singleton_inj.mp hq
    exact ⟨h₀, body, rfl, hp, hb⟩

/-- A return matches the latest pending call. -/
theorem Pending.ret (hp : Pending h (ps ++ [p])) : Pending (h ++ [.ret]) ps := by
  obtain ⟨h₀, body, rfl, hp₀, hb⟩ := hp.last
  have hn : Balanced (.call p :: (body ++ .ret :: [])) := .nest hb .nil
  rw [List.append_assoc, List.cons_append]
  exact hp₀.append hn

/-! ### Following histories -/

theorem Balanced.follow_eq (hb : Balanced h) (s : List Nat) : follow s h = some s := by
  induction hb generalizing s with
  | nil => rfl
  | @nest p body rest _ _ ihb ihr =>
    have hne : s ++ [p + 2] ≠ [] := by simp
    rw [follow, follow_append, ihb, Option.bind_some, follow, if_neg hne, List.dropLast_concat]
    exact ihr s

theorem Pending.follow_eq (hp : Pending h ps) : follow [] h = some (ps.map (· + 2)) := by
  induction hp with
  | none hb => exact hb.follow_eq []
  | more _ hb ih =>
    rw [follow_append, ih, Option.bind_some, follow, hb.follow_eq, List.map_append]
    rfl

theorem exists_pending_of_follow {s : List Nat} (hf : follow [] h = some s) :
    ∃ ps, Pending h ps ∧ s = ps.map (· + 2) := by
  -- the latest turn decides, so the history is taken from its end
  obtain ⟨r, rfl⟩ : ∃ r, h = r.reverse := ⟨h.reverse, h.reverse_reverse.symm⟩
  induction r generalizing s with
  | nil =>
    cases hf
    exact ⟨[], .none .nil, rfl⟩
  | cons t r ih =>
    rw [List.reverse_cons, follow_append, Option.bind_eq_some_iff] at hf
    obtain ⟨s₀, hf₀, ht⟩ := hf
    obtain ⟨ps, hp, rfl⟩ := ih hf₀
    rw [List.reverse_cons]
    cases t with
    | call p =>
      cases ht
      exact ⟨ps ++ [p], hp.call p, by simp⟩
    | ret =>
      rw [follow] at ht
      split at ht
      · cases ht
      · next hne =>
        cases ht
        rw [List.map_eq_nil_iff] at hne
        obtain ⟨qs, p, rfl⟩ : ∃ qs p, ps = qs ++ [p] :=
          ⟨_, _, (List.dropLast_concat_getLast hne).symm⟩
        exact ⟨qs, hp.ret, by simp⟩

theorem pending_iff_follow : Pending h ps ↔ follow [] h = some (ps.map (· + 2)) := by
  constructor
  · exact Pending.follow_eq
  · intro hf
    obtain ⟨qs, hq, he⟩ := exists_pending_of_follow hf
    rw [List.map_inj_right fun a b hab => Nat.add_right_cancel hab] at he
    rw [he]
    exact hq

end Turn

end ChipEight
