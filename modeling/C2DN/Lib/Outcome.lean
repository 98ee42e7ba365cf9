/-!
# Outcomes of fallible computations

`Ends x P E`: the computation `x` ends with a value that satisfies `P` or with an error that
satisfies `E`. With `E := fun _ => False` it returns.
-/

namespace C2DN

/-- What `x` ends with. -/
def Ends {ε α : Type} (x : Except ε α) (P : α → Prop) (E : ε → Prop) : Prop :=
  match x with
  | .ok a => P a
  | .error e => E e

section
variable {ε α β γ σ : Type} {x : Except ε α} {P : α → Prop} {E : ε → Prop}

theorem Ends.ok {a : α} (h : Ends x P E) (hx : x = .ok a) : P a := by
  subst hx; exact h

theorem Ends.error {e : ε} (h : Ends x P E) (hx : x = .error e) : E e := by
  subst hx; exact h

theorem Ends.returns (h : Ends x P fun _ => False) : ∃ a, x = .ok a ∧ P a := by
  cases x with
  | ok a => exact ⟨a, rfl, h⟩
  | error e => exact h.elim

theorem Ends.mono {Q : α → Prop} {E' : ε → Prop} (h : Ends x P E) (hP : ∀ a, P a → Q a)
    (hE : ∀ e, E e → E' e) : Ends x Q E' := by
  cases x with
  | ok a => exact hP a h
  | error e => exact hE e h

theorem Ends.imp {Q : α → Prop} (h : Ends x P E) (hP : ∀ a, P a → Q a) : Ends x Q E :=
  h.mono hP fun _ => id

theorem Ends.bind {f : α → Except ε β} {Q : β → Prop} (h : Ends x P E)
    (hf : ∀ a, P a → Ends (f a) Q E) : Ends (x.bind f) Q E := by
  cases x with
  | ok a => exact hf a h
  | error e => exact h

theorem Ends.map {f : α → β} {Q : β → Prop} (h : Ends x P E) (hf : ∀ a, P a → Q (f a)) :
    Ends (x.map f) Q E := by
  cases x with
  | ok a => exact hf a h
  | error e => exact h

/-- A guard that fails with `e`. -/
theorem Ends.guard {c : Prop} [Decidable c] {e : ε} (he : c → E e) (h : ¬ c → Ends x P E) :
    Ends (if c then .error e else x) P E := by
  by_cases hc : c
  · rw [if_pos hc]; exact he hc
  · rw [if_neg hc]; exact h hc

/-- A loop: `I` holds of the part of the list that is done. -/
theorem Ends.foldlM {f : σ → α → Except ε σ} (I : List α → σ → Prop) {l : List α} {s : σ}
    (h0 : I [] s)
    (hstep : ∀ pre a post s, l = pre ++ a :: post → I pre s → Ends (f s a) (I (pre ++ [a])) E) :
    Ends (l.foldlM f s) (I l) E := by
  have aux : ∀ post pre s, l = pre ++ post → I pre s → Ends (post.foldlM f s) (I l) E := by
    intro post
    induction post with
    | nil =>
      intro pre s hl hI
      rw [List.append_nil] at hl
      rw [hl]
      exact hI
    | cons a post ih =>
      intro pre s hl hI
      rw [List.foldlM_cons]
      refine (hstep pre a post s hl hI).bind fun s' hs' => ?_
      exact ih (pre ++ [a]) s' (by rw [hl, List.append_assoc]; rfl) hs'
  exact aux l [] s rfl h0

/-- The first turn of a loop returns. -/
theorem foldlM_cons_ok {f : σ → α → Except ε σ} {l : List α} {a : α} {s s' : σ} (h : f s a = .ok s') :
    (a :: l).foldlM f s = l.foldlM f s' := by
  rw [List.foldlM_cons, h]
  rfl

/-- All turns of a loop but the last one return. -/
theorem foldlM_concat {f : σ → α → Except ε σ} {l : List α} {a : α} {s s' : σ}
    (h : l.foldlM f s = .ok s') : (l ++ [a]).foldlM f s = f s' a := by
  rw [List.foldlM_append, h]
  change [a].foldlM f s' = _
  rw [List.foldlM_cons]
  cases f s' a <;> rfl

theorem bind_eq_ok {f : α → Except ε β} {b : β} (h : x.bind f = .ok b) :
    ∃ a, x = .ok a ∧ f a = .ok b := by
  cases x with
  | ok a => exact ⟨a, rfl, h⟩
  | error e => cases h

theorem mapM_ok {f : α → Except ε β} {g : α → β} {l : List α} (h : ∀ a ∈ l, f a = .ok (g a)) :
    l.mapM f = .ok (l.map g) := by
  induction l with
  | nil => rfl
  | cons a l ih =>
    rw [List.mapM_cons, h a List.mem_cons_self, ih fun b hb => h b (List.mem_cons_of_mem _ hb)]
    rfl

theorem exists_ok_of_mapM {f : α → Except ε β} {l : List α} {bs : List β} (h : l.mapM f = .ok bs) :
    ∀ a ∈ l, ∃ b, f a = .ok b := by
  induction l generalizing bs with
  | nil => exact fun a ha => absurd ha List.not_mem_nil
  | cons a l ih =>
    rw [List.mapM_cons] at h
    obtain ⟨b, hb, h⟩ := bind_eq_ok h
    obtain ⟨bs', hbs', -⟩ := bind_eq_ok h
    intro c hc
    rcases List.mem_cons.mp hc with rfl | hc
    · exact ⟨b, hb⟩
    · exact ih hbs' c hc

theorem map_eq_ok {f : α → β} {b : β} (h : x.map f = .ok b) : ∃ a, x = .ok a ∧ b = f a := by
  cases x with
  | ok a => exact ⟨a, rfl, (Except.ok.inj h).symm⟩
  | error e => cases h

theorem map_eq_ok_iff {f : α → β} {b : β} : x.map f = .ok b ↔ ∃ a, x = .ok a ∧ f a = b := by
  constructor
  · intro h
    obtain ⟨a, ha, rfl⟩ := map_eq_ok h
    exact ⟨a, ha, rfl⟩
  · rintro ⟨a, rfl, rfl⟩
    rfl

theorem bind_eq_map_bind {f : α → Except ε γ} {g : α → Except ε β} {k : β → γ}
    (h : ∀ a, f a = (g a).map k) : x.bind f = (x.bind g).map k := by
  cases x with
  | ok a => exact h a
  | error e => rfl

theorem bind_map_eq {f : α → β} {g : β → Except ε γ} :
    (x.map f).bind g = x.bind fun a => g (f a) := by
  cases x <;> rfl

theorem bind_ok_eq {f : α → β} : (x.bind fun a => .ok (f a)) = x.map f := by
  cases x <;> rfl

theorem eq_ok_of_toOption {a : α} (h : x.toOption = some a) : x = .ok a := by
  cases x with
  | ok b => exact congrArg Except.ok (Option.some.inj h)
  | error e => cases h

/-- `x` ends with the error `e`. -/
def failsWith [DecidableEq ε] (x : Except ε α) (e : ε) : Bool :=
  match x with
  | .ok _ => false
  | .error e' => e' == e

theorem eq_error_of_failsWith [DecidableEq ε] {e : ε} (h : failsWith x e = true) : x = .error e := by
  cases x with
  | ok a => cases h
  | error e' => rw [beq_iff_eq.mp h]

/-- The value of a computation that returns. -/
def valueOf (x : Except ε α) (h : ∃ a, x = .ok a ∧ P a) : { a // P a } :=
  match x, h with
  | .ok a, h => ⟨a, by
    obtain ⟨a', ha, hP⟩ := h
    cases ha
    exact hP⟩
  | .error _, h => absurd h fun ⟨_, he, _⟩ => nomatch he

theorem exists_ok_of_any {q : α → Bool} (h : x.toOption.any q = true) : ∃ a, x = .ok a ∧ q a = true := by
  cases x with
  | ok a => exact ⟨a, rfl, h⟩
  | error e => cases h

end

end C2DN
