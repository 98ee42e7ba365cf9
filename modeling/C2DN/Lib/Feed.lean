import C2DN.Lib.Outcome

/-!
# Machines that are fed

A machine takes one input after the other. It puts outputs out, and it can stop before an input. A call
feeds it a list of inputs and returns how many it took. How a stream is cut into calls makes no
difference.
-/

namespace C2DN

/-- The machine takes an input, or it stops before it. -/
inductive Fed (σ ω : Type) where
  | next (s : σ) (out : List ω)
  | stop (s : σ)

section
variable {σ α ω ε : Type} (step : σ → α → Except ε (Fed σ ω))

/-- A call: how many inputs were taken, the machine after them, and what it put out. -/
def feed : List α → σ → Except ε (Nat × σ × List ω)
  | [], s => .ok (0, s, [])
  | a :: as, s => (step s a).bind fun
    | .stop s => .ok (0, s, [])
    | .next s out => (feed as s).map fun (n, s, out') => (n + 1, s, out ++ out')

/-- Calls for one chunk after the other, up to the first one that is not taken whole. -/
def feedAll : List (List α) → σ → Except ε (Nat × σ × List ω)
  | [], s => .ok (0, s, [])
  | as :: chunks, s => (feed step as s).bind fun (n, s, out) =>
    if n < as.length then .ok (n, s, out)
    else (feedAll chunks s).map fun (m, s, out') => (n + m, s, out ++ out')

variable {step} {a : α} {as bs : List α} {s s' s'' : σ} {n m : Nat} {out out' : List ω}

theorem feed_cons (h : step s a = .ok (.next s' out)) :
    feed step (a :: as) s =
      (feed step as s').map fun (n, s, out') => (n + 1, s, out ++ out') := by
  rw [feed, h]
  rfl

theorem feed_length_le (h : feed step as s = .ok (n, s', out)) : n ≤ as.length := by
  induction as generalizing s n out with
  | nil =>
    cases h
    exact Nat.le_refl _
  | cons a as ih =>
    obtain ⟨fed, -, h⟩ := bind_eq_ok h
    cases fed with
    | stop s =>
      cases h
      exact Nat.zero_le _
    | next s₁ out₁ =>
      obtain ⟨⟨n₁, s₂, out₂⟩, hfeed, heq⟩ := map_eq_ok h
      cases heq
      exact Nat.succ_le_succ (ih hfeed)

/-- A call that takes its inputs is followed by a call for the further ones. -/
theorem feed_append (h : feed step as s = .ok (as.length, s', out)) :
    feed step (as ++ bs) s =
      (feed step bs s').map fun (n, s, out') => (as.length + n, s, out ++ out') := by
  induction as generalizing s out with
  | nil =>
    cases h
    rw [List.nil_append]
    cases feed step bs s' with
    | error e => rfl
    | ok r => exact congrArg Except.ok (Prod.ext (Nat.zero_add r.1).symm rfl)
  | cons a as ih =>
    obtain ⟨fed, hstep, h⟩ := bind_eq_ok h
    cases fed with
    | stop s => cases h
    | next s₁ out₁ =>
      obtain ⟨⟨n₁, s₂, out₂⟩, hfeed, heq⟩ := map_eq_ok h
      obtain ⟨hn, heq⟩ := Prod.mk.inj heq
      cases Nat.succ.inj hn
      cases heq
      rw [List.cons_append, feed_cons hstep, ih hfeed]
      cases feed step bs s' with
      | error e => rfl
      | ok r =>
        refine congrArg Except.ok (Prod.ext ?_ (Prod.ext rfl (List.append_assoc _ _ _).symm))
        exact Nat.add_right_comm _ r.1 1

theorem feed_append_ok (h : feed step as s = .ok (as.length, s', out))
    (h' : feed step bs s' = .ok (bs.length, s'', out')) :
    feed step (as ++ bs) s = .ok ((as ++ bs).length, s'', out ++ out') := by
  rw [feed_append h, h', List.length_append]
  rfl

theorem feed_one (h : step s a = .ok (.next s' out)) :
    feed step [a] s = .ok ([a].length, s', out) := by
  rw [feed_cons h, feed]
  exact congrArg Except.ok (Prod.ext rfl (Prod.ext rfl (List.append_nil out)))

/-- A call that stops does not see what is behind. -/
theorem feed_append_of_lt (h : feed step as s = .ok (n, s', out)) (hlt : n < as.length) :
    feed step (as ++ bs) s = .ok (n, s', out) := by
  induction as generalizing s n out with
  | nil => exact absurd hlt (Nat.not_lt_zero _)
  | cons a as ih =>
    obtain ⟨fed, hstep, h⟩ := bind_eq_ok h
    cases fed with
    | stop s₁ =>
      cases h
      rw [List.cons_append, feed, hstep]
      rfl
    | next s₁ out₁ =>
      obtain ⟨⟨n₁, s₂, out₂⟩, hfeed, heq⟩ := map_eq_ok h
      cases heq
      rw [List.cons_append, feed_cons hstep, ih hfeed (Nat.lt_of_succ_lt_succ hlt)]
      rfl

theorem feed_append_of_error {e : ε} (h : feed step as s = .error e) :
    feed step (as ++ bs) s = .error e := by
  induction as generalizing s with
  | nil => cases h
  | cons a as ih =>
    rw [List.cons_append, feed]
    rw [feed] at h
    cases hstep : step s a with
    | error e' => rwa [hstep] at h
    | ok fed =>
      rw [hstep] at h
      cases fed with
      | stop s₁ => cases h
      | next s₁ out₁ =>
        cases hfeed : feed step as s₁ with
        | ok r =>
          dsimp only [Except.bind] at h
          rw [hfeed] at h
          cases h
        | error e' =>
          dsimp only [Except.bind] at h ⊢
          rw [hfeed] at h
          cases h
          rw [ih hfeed]
          rfl

/-- **Chunks.** A stream can be cut anywhere. -/
theorem feedAll_eq_feed (chunks : List (List α)) (s : σ) :
    feedAll step chunks s = feed step chunks.flatten s := by
  induction chunks generalizing s with
  | nil => rfl
  | cons as chunks ih =>
    rw [feedAll, List.flatten_cons]
    cases hfeed : feed step as s with
    | error e => exact (feed_append_of_error hfeed).symm
    | ok r =>
      obtain ⟨n, s', out⟩ := r
      dsimp only [Except.bind]
      split
      · next hlt => exact (feed_append_of_lt hfeed hlt).symm
      · next hge =>
        obtain rfl : n = as.length := Nat.le_antisymm (feed_length_le hfeed) (Nat.le_of_not_lt hge)
        rw [feed_append hfeed, ih]

/-- What holds before every input holds after the call. -/
theorem Fed.inv_of_feed {I : σ → Prop} {P : ω → Prop}
    (hstep : ∀ s a, I s → Ends (step s a)
      (fun
        | .next s' out => I s' ∧ ∀ o ∈ out, P o
        | .stop s' => I s') fun _ => False)
    (hI : I s) (as : List α) :
    ∃ n s' out, feed step as s = .ok (n, s', out) ∧ I s' ∧ ∀ o ∈ out, P o := by
  induction as generalizing s with
  | nil => exact ⟨0, s, [], rfl, hI, fun _ h => absurd h List.not_mem_nil⟩
  | cons a as ih =>
    obtain ⟨fed, hfed, hP⟩ := (hstep s a hI).returns
    cases fed with
    | stop s₁ =>
      refine ⟨0, s₁, [], ?_, hP, fun _ h => absurd h List.not_mem_nil⟩
      rw [feed, hfed]
      rfl
    | next s₁ out₁ =>
      obtain ⟨n, s', out, hfeed, hI', hout⟩ := ih hP.1
      refine ⟨n + 1, s', out₁ ++ out, ?_, hI', fun o ho => ?_⟩
      · rw [feed_cons hfed, hfeed]
        rfl
      · rcases List.mem_append.mp ho with ho | ho
        · exact hP.2 o ho
        · exact hout o ho

end

end C2DN
