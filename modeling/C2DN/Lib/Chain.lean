import Mathlib.Data.List.Nodup

/-!
# Null-terminated chains

Nodes lie at addresses of a type `α`, and `next` is the pointer field of every address.
`Chain next o l` says that the nodes from the pointer `o` on are `l`, and that the last one has a null
pointer. A node joins at the end (`Chain.push`) or leaves behind another one (`Chain.unlink`); both
rules say which fields may change. The loops over a chain have a bound on the number of turns, and end
in `none` if it is too small.
-/

namespace C2DN

variable {α : Type} {next next' : α → Option α} {o : Option α} {l l₁ l₂ : List α} {a b z : α}
  {n : Nat}

def Chain (next : α → Option α) : Option α → List α → Prop
  | o, [] => o = none
  | o, a :: l => o = some a ∧ Chain next (next a) l

@[simp] theorem chain_nil : Chain next o [] ↔ o = none := .rfl

namespace Chain

theorem head (h : Chain next o l) : o = l.head? := by
  cases l with
  | nil => exact h
  | cons a l => exact h.1

/-- A pointer leads to one chain only. -/
theorem unique (h : Chain next o l) (h' : Chain next o l₁) : l = l₁ := by
  induction l generalizing o l₁ with
  | nil =>
    cases l₁ with
    | nil => rfl
    | cons b l₁ => cases h.symm.trans h'.1
  | cons a l ih =>
    cases l₁ with
    | nil => cases h'.symm.trans h.1
    | cons b l₁ =>
      cases h.1.symm.trans h'.1
      rw [ih h.2 h'.2]

theorem congr (h : Chain next o l) (hnext : ∀ a ∈ l, next' a = next a) : Chain next' o l := by
  induction l generalizing o with
  | nil => exact h
  | cons a l ih =>
    refine ⟨h.1, ?_⟩
    rw [hnext a List.mem_cons_self]
    exact ih h.2 fun b hb => hnext b (List.mem_cons_of_mem _ hb)

/-- A node joins at the end. -/
theorem push (h : Chain next o l) (hl : l.Nodup) (hlast : l.getLast? = some z)
    (hz : next' z = some b) (hb : next' b = none) (hnext : ∀ x ∈ l, x ≠ z → next' x = next x) :
    Chain next' o (l ++ [b]) := by
  induction l generalizing o with
  | nil => cases hlast
  | cons a l ih =>
    obtain ⟨ha, hl⟩ := List.nodup_cons.mp hl
    refine ⟨h.1, ?_⟩
    cases l with
    | nil =>
      cases hlast
      exact ⟨hz, hb⟩
    | cons c l =>
      rw [List.getLast?_cons_cons] at hlast
      rw [hnext a List.mem_cons_self (ne_of_mem_of_not_mem (List.mem_of_getLast? hlast) ha).symm]
      exact ih h.2 hl hlast fun x hx => hnext x (List.mem_cons_of_mem _ hx)

/-- The node behind `a` leaves. -/
theorem unlink (h : Chain next o (l₁ ++ a :: b :: l₂)) (ha : next' a = next b)
    (hnext : ∀ x ∈ l₁ ++ l₂, next' x = next x) : Chain next' o (l₁ ++ a :: l₂) := by
  induction l₁ generalizing o with
  | nil =>
    obtain ⟨ho, -, h⟩ := h
    refine ⟨ho, ?_⟩
    rw [ha]
    exact h.congr hnext
  | cons c l₁ ih =>
    refine ⟨h.1, ?_⟩
    rw [hnext c (by simp)]
    exact ih h.2 fun x hx => hnext x (by simp [List.mem_append.mp hx])

end Chain

/-! ## Loops -/

/-- `while (a->next) a = a->next;` -/
def lastFrom (next : α → Option α) : Nat → α → Option α
  | 0, _ => none
  | n + 1, a =>
    match next a with
    | none => some a
    | some b => lastFrom next n b

/-- The first node from `o` on that satisfies `p`. -/
def findFrom (next : α → Option α) (p : α → Bool) : Nat → Option α → Option (Option α)
  | 0, _ => none
  | _ + 1, none => some none
  | n + 1, some a => if p a then some (some a) else findFrom next p n (next a)

theorem Chain.lastFrom_eq (h : Chain next (some a) l) (hn : l.length ≤ n) :
    lastFrom next n a = l.getLast? := by
  induction l generalizing a n with
  | nil => cases h
  | cons b l ih =>
    obtain ⟨hb, h⟩ := h
    cases hb
    obtain ⟨n, rfl⟩ : ∃ m, n = m + 1 := Nat.exists_eq_add_one.mpr (Nat.lt_of_lt_of_le (by simp) hn)
    rw [lastFrom]
    cases l with
    | nil => rw [chain_nil.mp h]; rfl
    | cons c l =>
      rw [h.1]
      rw [h.1] at h
      exact (ih h (Nat.le_of_succ_le_succ hn)).trans List.getLast?_cons_cons.symm

theorem Chain.findFrom_eq {p : α → Bool} (h : Chain next o l) (hn : l.length < n) :
    findFrom next p n o = some (l.find? p) := by
  induction l generalizing o n with
  | nil =>
    obtain ⟨n, rfl⟩ : ∃ m, n = m + 1 := Nat.exists_eq_add_one.mpr hn
    rw [chain_nil.mp h]
    rfl
  | cons a l ih =>
    obtain ⟨n, rfl⟩ : ∃ m, n = m + 1 := Nat.exists_eq_add_one.mpr (Nat.lt_of_le_of_lt (Nat.zero_le _) hn)
    rw [h.1, findFrom, List.find?_cons]
    cases p a with
    | true => rfl
    | false => exact ih h.2 (Nat.lt_of_succ_lt_succ hn)

/-- The nodes from `o` on, at most `n` of them. -/
def walkFrom (next : α → Option α) : Nat → Option α → List α
  | 0, _ => []
  | _ + 1, none => []
  | n + 1, some a => a :: walkFrom next n (next a)

theorem Chain.walkFrom_eq (h : Chain next o l) (hn : l.length ≤ n) : walkFrom next n o = l := by
  induction l generalizing o n with
  | nil =>
    rw [chain_nil.mp h]
    cases n <;> rfl
  | cons a l ih =>
    obtain ⟨n, rfl⟩ : ∃ m, n = m + 1 := Nat.exists_eq_add_one.mpr (Nat.lt_of_lt_of_le (by simp) hn)
    rw [h.1, walkFrom, ih h.2 (Nat.le_of_succ_le_succ hn)]

variable [DecidableEq α]

/-- The node from `a` on that has `b` behind it. -/
def beforeFrom (next : α → Option α) (b : α) : Nat → α → Option (Option α)
  | 0, _ => none
  | n + 1, a =>
    match next a with
    | none => some none
    | some c => if c = b then some (some a) else beforeFrom next b n c

theorem Chain.beforeFrom_eq {p : α} (h : Chain next (some a) (l₁ ++ p :: b :: l₂))
    (hl : (l₁ ++ p :: b :: l₂).Nodup) (hn : l₁.length < n) : beforeFrom next b n a = some (some p) := by
  induction l₁ generalizing a n with
  | nil =>
    obtain ⟨n, rfl⟩ : ∃ m, n = m + 1 := Nat.exists_eq_add_one.mpr hn
    obtain ⟨hp, hb, -⟩ := h
    cases hp
    rw [beforeFrom, hb]
    exact if_pos rfl
  | cons c l₁ ih =>
    obtain ⟨n, rfl⟩ : ∃ m, n = m + 1 := Nat.exists_eq_add_one.mpr (Nat.lt_of_le_of_lt (Nat.zero_le _) hn)
    obtain ⟨hc, h⟩ := h
    cases hc
    have hl := (List.nodup_cons.mp hl).2
    -- the next node comes before `b`
    obtain ⟨d, hd, hdb⟩ : ∃ d, next c = some d ∧ d ≠ b := by
      have hhead := h.head
      cases l₁ with
      | nil => exact ⟨p, hhead, fun heq => (List.nodup_cons.mp hl).1 (by simp [heq])⟩
      | cons d l₁ => exact ⟨d, hhead, fun heq => (List.nodup_cons.mp hl).1 (by simp [heq])⟩
    rw [beforeFrom, hd]
    rw [hd] at h
    exact (if_neg hdb).trans (ih h hl (Nat.lt_of_succ_lt_succ hn))

end C2DN
