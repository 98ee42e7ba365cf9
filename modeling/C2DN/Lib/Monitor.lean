import C2DN.Lib.Outcome

/-!
# A mutex with a condition variable

`lock`, `unlock`, `wait` and `signal` as atomic steps of goroutines. A goroutine that calls `wait`
gives the mutex back and falls asleep in one step; it returns from `wait` with `wake`, once a
`signal` has taken it off the sleepers and the mutex is free. A `signal` that finds no sleeper is
lost. `Guarded crit m`: the goroutines that are in a critical section hold the mutex.
-/

namespace C2DN

/-- Why a goroutine takes no step. -/
inductive Halt where
  /-- it waits for the mutex or for a signal, or it has returned -/
  | blocked
  | panic
  deriving DecidableEq, Repr

structure Monitor (τ : Type) where
  holder : Option τ
  sleeping : List τ
  deriving DecidableEq, Repr

namespace Monitor

variable {τ : Type}

def free : Monitor τ := ⟨none, []⟩

def lock (m : Monitor τ) (t : τ) : Except Halt (Monitor τ) :=
  if m.holder = none then .ok { m with holder := some t } else .error .blocked

/-- Any goroutine can give the mutex back; nobody can give back a free one. -/
def unlock (m : Monitor τ) : Except Halt (Monitor τ) :=
  if m.holder = none then .error .panic else .ok { m with holder := none }

def wait (m : Monitor τ) (t : τ) : Except Halt (Monitor τ) :=
  m.unlock.map fun m => { m with sleeping := m.sleeping ++ [t] }

def wake [DecidableEq τ] (m : Monitor τ) (t : τ) : Except Halt (Monitor τ) :=
  if t ∈ m.sleeping then .error .blocked else m.lock t

def signal (m : Monitor τ) : Monitor τ := { m with sleeping := m.sleeping.tail }

variable {m m' : Monitor τ} {t : τ}

@[simp] theorem lock_eq_ok : m.lock t = .ok m' ↔ m.holder = none ∧ ⟨some t, m.sleeping⟩ = m' := by
  unfold lock
  split
  · simp_all
  · simp_all

@[simp] theorem unlock_eq_ok : m.unlock = .ok m' ↔ m.holder ≠ none ∧ ⟨none, m.sleeping⟩ = m' := by
  unfold unlock
  split
  · simp_all
  · simp_all

@[simp] theorem wait_eq_ok :
    m.wait t = .ok m' ↔ m.holder ≠ none ∧ ⟨none, m.sleeping ++ [t]⟩ = m' := by
  unfold wait
  rw [map_eq_ok_iff]
  constructor
  · rintro ⟨m₁, hm₁, rfl⟩
    obtain ⟨hm, rfl⟩ := unlock_eq_ok.1 hm₁
    exact ⟨hm, rfl⟩
  · rintro ⟨hm, rfl⟩
    exact ⟨_, unlock_eq_ok.2 ⟨hm, rfl⟩, rfl⟩

@[simp] theorem wake_eq_ok [DecidableEq τ] :
    m.wake t = .ok m' ↔ t ∉ m.sleeping ∧ m.holder = none ∧ ⟨some t, m.sleeping⟩ = m' := by
  unfold wake
  split
  · simp_all
  · simp_all

@[simp] theorem signal_holder : m.signal.holder = m.holder := rfl

/-- What a step of `t` does to the mutex, between a place in a critical section or not (`c`) and
another (`c'`). -/
inductive Move (t : τ) (c c' : Prop) (m m' : Monitor τ) : Prop
  | keep (hm : m'.holder = m.holder) (hc : c' → c)
  | enter (hm : m.holder = none) (hm' : m'.holder = some t)
  | leave (hc : c) (hc' : ¬ c')

theorem Move.imp {c c' d d' : Prop} (h : Move t c c' m m') (hd : c → d) (hd' : d' → c') :
    Move t d d' m m' := by
  cases h with
  | keep hm hc => exact .keep hm fun h => hd (hc (hd' h))
  | enter hm hm' => exact .enter hm hm'
  | leave hc hc' => exact .leave (hd hc) fun h => hc' (hd' h)

/-- The goroutines in a critical section hold the mutex. -/
def Guarded (crit : τ → Prop) (m : Monitor τ) : Prop := ∀ t, crit t → m.holder = some t

namespace Guarded

variable {crit crit' : τ → Prop}

/-- At most one goroutine is in a critical section. -/
theorem eq (h : Guarded crit m) {u : τ} (ht : crit t) (hu : crit u) : t = u :=
  Option.some.inj ((h t ht).symm.trans (h u hu))

theorem not_of_free (h : Guarded crit m) (hm : m.holder = none) : ¬ crit t :=
  fun ht => nomatch hm.symm.trans (h t ht)

/-- A step of `t` keeps the critical sections apart. -/
theorem move (h : Guarded crit m) (hmove : Move t (crit t) (crit' t) m m')
    (hother : ∀ u, u ≠ t → crit' u → crit u) : Guarded crit' m' := by
  intro u hu
  by_cases hut : u = t
  · subst hut
    cases hmove with
    | keep hm hc => exact hm.trans (h u (hc hu))
    | enter _ hm' => exact hm'
    | leave _ hc' => exact absurd hu hc'
  · have hcu := hother u hut hu
    cases hmove with
    | keep hm _ => exact hm.trans (h u hcu)
    | enter hm _ => exact absurd hcu (h.not_of_free hm)
    | leave hc _ => exact absurd (h.eq hcu hc) hut

end Guarded

end Monitor

end C2DN
