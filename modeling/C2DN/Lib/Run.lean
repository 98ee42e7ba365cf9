import C2DN.Lib.Outcome

/-!
# Runs of a fallible step function

A run applies `step` to a list of inputs until it fails. `Steps P` says that `P` holds of every step
that a run takes, with the state before and after it; `Meets C` says that every input meets the
condition `C` in the state that it comes to.
-/

namespace C2DN

section
variable {σ ι ε : Type} (step : σ → ι → Except ε σ)

/-- `P` holds at every step of the run from `s`. -/
def Steps (P : σ → ι → σ → Prop) : List ι → σ → Prop
  | [], _ => True
  | a :: as, s => ∀ s', step s a = .ok s' → P s a s' ∧ Steps P as s'

/-- Runs of a computable step function can be checked. -/
instance Steps.decidable (P : σ → ι → σ → Prop) [∀ s a s', Decidable (P s a s')] :
    ∀ (as : List ι) (s : σ), Decidable (Steps step P as s)
  | [], _ => isTrue trivial
  | a :: as, s =>
    match h : step s a with
    | .ok s' =>
      have := Steps.decidable P as s'
      decidable_of_iff (P s a s' ∧ Steps step P as s')
        ⟨fun hs _ heq => Except.ok.inj (h.symm.trans heq) ▸ hs, fun hs => hs s' h⟩
    | .error _ => isTrue fun _ heq => nomatch h.symm.trans heq

/-- `C` holds of every input of the run from `s`. -/
def Meets (C : σ → ι → Prop) : List ι → σ → Prop
  | [], _ => True
  | a :: as, s => C s a ∧ ∀ s', step s a = .ok s' → Meets C as s'

instance Meets.decidable (C : σ → ι → Prop) [∀ s a, Decidable (C s a)] :
    ∀ (as : List ι) (s : σ), Decidable (Meets step C as s)
  | [], _ => isTrue trivial
  | a :: as, s =>
    match h : step s a with
    | .ok s' =>
      have := Meets.decidable C as s'
      decidable_of_iff (C s a ∧ Meets step C as s')
        ⟨fun hs => ⟨hs.1, fun _ heq => Except.ok.inj (h.symm.trans heq) ▸ hs.2⟩,
          fun hs => ⟨hs.1, hs.2 s' h⟩⟩
    | .error _ =>
      decidable_of_iff (C s a)
        ⟨fun hs => ⟨hs, fun _ heq => nomatch h.symm.trans heq⟩, fun hs => hs.1⟩

variable {step} {I : σ → Prop} {C P : σ → ι → σ → Prop}

/-- **Invariants.** An invariant that steps keep under the condition `C` holds along every run that
meets `C`, with what it gives for a step. -/
theorem Steps.of_inv (h : ∀ s a s', I s → step s a = .ok s' → C s a s' → I s' ∧ P s a s')
    {as : List ι} {s : σ} (hI : I s) (hC : Steps step C as s) : Steps step P as s := by
  induction as generalizing s with
  | nil => trivial
  | cons a as ih =>
    intro s' hs'
    obtain ⟨hC₁, hC'⟩ := hC s' hs'
    obtain ⟨hI', hP⟩ := h s a s' hI hs' hC₁
    exact ⟨hP, ih hI' hC'⟩

theorem Steps.of_forall (h : ∀ s a s', step s a = .ok s' → P s a s') {as : List ι} {s : σ} :
    Steps step P as s := by
  induction as generalizing s with
  | nil => trivial
  | cons a as ih => exact fun s' hs' => ⟨h s a s' hs', ih⟩

theorem Steps.imp {Q : σ → ι → σ → Prop} (h : ∀ s a s', P s a s' → Q s a s') {as : List ι} {s : σ}
    (hP : Steps step P as s) : Steps step Q as s := by
  induction as generalizing s with
  | nil => trivial
  | cons a as ih =>
    intro s' hs'
    obtain ⟨hP₁, hP'⟩ := hP s' hs'
    exact ⟨h s a s' hP₁, ih hP'⟩

/-- Conditions that agree on every step of a run. -/
theorem Steps.congr {Q : σ → ι → σ → Prop} {as : List ι} {s : σ}
    (h : Steps step (fun s a s' => P s a s' ↔ Q s a s') as s) :
    Steps step P as s ↔ Steps step Q as s := by
  induction as generalizing s with
  | nil => exact .rfl
  | cons a as ih =>
    refine forall₂_congr fun s' hs' => ?_
    obtain ⟨h₁, h'⟩ := h s' hs'
    exact and_congr h₁ (ih h')

/-- A condition on the inputs alone. -/
theorem Steps.of_mem {C : ι → Prop} {as : List ι} {s : σ} (h : ∀ a ∈ as, C a) :
    Steps step (fun _ a _ => C a) as s := by
  induction as generalizing s with
  | nil => trivial
  | cons a as ih =>
    exact fun s' _ => ⟨h a List.mem_cons_self, ih fun b hb => h b (List.mem_cons_of_mem _ hb)⟩

/-- A step function that returns from every state of the invariant, for the inputs that meet `D`. -/
theorem Meets.run {D : σ → ι → Prop} {as : List ι} {s : σ}
    (h : ∀ s, ∀ a ∈ as, I s → D s a → ∃ s', step s a = .ok s' ∧ I s' ∧ P s a s') (hI : I s)
    (hD : Meets step D as s) :
    (∃ s', as.foldlM step s = .ok s' ∧ I s') ∧ Steps step P as s := by
  induction as generalizing s with
  | nil => exact ⟨⟨s, rfl, hI⟩, trivial⟩
  | cons a as ih =>
    obtain ⟨hD₁, hD'⟩ := hD
    obtain ⟨s₁, hs₁, hI₁, hP⟩ := h s a List.mem_cons_self hI hD₁
    obtain ⟨hrun, hsteps⟩ := ih (fun s b hb => h s b (List.mem_cons_of_mem _ hb)) hI₁ (hD' s₁ hs₁)
    refine ⟨?_, fun s' hs' => ?_⟩
    · rw [foldlM_cons_ok hs₁]
      exact hrun
    · rw [hs₁] at hs'
      cases hs'
      exact ⟨hP, hsteps⟩

theorem Meets.of_mem {D : ι → Prop} {as : List ι} {s : σ} (h : ∀ a ∈ as, D a) :
    Meets step (fun _ a => D a) as s := by
  induction as generalizing s with
  | nil => trivial
  | cons a as ih =>
    exact ⟨h a List.mem_cons_self, fun s' _ => ih fun b hb => h b (List.mem_cons_of_mem _ hb)⟩

/-- Inputs that satisfy `D` in every state. -/
theorem Steps.of_total {D : ι → Prop} (h : ∀ s a, I s → D a → ∃ s', step s a = .ok s' ∧ I s' ∧ P s a s')
    {as : List ι} {s : σ} (hI : I s) (hD : ∀ a ∈ as, D a) :
    (∃ s', as.foldlM step s = .ok s' ∧ I s') ∧ Steps step P as s :=
  Meets.run (fun s a _ => h s a) hI (Meets.of_mem hD)

/-- The invariant holds where such a run ends. -/
theorem Steps.inv_of_run (h : ∀ s a s', I s → step s a = .ok s' → C s a s' → I s') {as : List ι}
    {s s' : σ} (hI : I s) (hC : Steps step C as s) (hrun : as.foldlM step s = .ok s') : I s' := by
  induction as generalizing s with
  | nil => cases hrun; exact hI
  | cons a as ih =>
    rw [List.foldlM_cons] at hrun
    obtain ⟨s₁, hs₁, hrun⟩ := bind_eq_ok hrun
    obtain ⟨hC₁, hC'⟩ := hC s₁ hs₁
    exact ih (h s a s₁ hI hs₁ hC₁) hC' hrun

/-- An invariant of all steps. -/
theorem inv_of_run (h : ∀ s a s', I s → step s a = .ok s' → I s') {as : List ι} {s s' : σ} (hI : I s)
    (hrun : as.foldlM step s = .ok s') : I s' :=
  Steps.inv_of_run (C := fun _ _ _ => True) (fun s a s' hI hs _ => h s a s' hI hs) hI
    (Steps.of_forall fun _ _ _ _ => trivial) hrun

end

end C2DN
