import Mathlib.Data.List.Nodup

/-!
# Doubly linked lists

Nodes lie at addresses of a type `α`. `Links` has the fields `prev` and `next` of every address and
the two ends of one list; `L.Linked l` says that this list is `l`. The rules for the operations on a
list (`Linked.pop`, `Linked.bridge`, `Linked.push`) say which fields an operation changes, and
`Linked.rename` is the rule for a node that moves to another address. They are derived from segments
(`Seg`), which are joined by `seg_append` and depend on the fields of their own nodes only. `ofList`
gives the links of any list.
-/

namespace C2DN

structure Links (α : Type) where
  prev : α → Option α
  next : α → Option α
  head : Option α
  tail : Option α

namespace Links
variable {α : Type} {L L' : Links α} {l r : List α} {p q : Option α} {a b x y z : α}

section
variable [DecidableEq α]

def setPrev (L : Links α) (a : α) (p : Option α) : Links α :=
  { L with prev := fun x => if x = a then p else L.prev x }

def setNext (L : Links α) (a : α) (q : Option α) : Links α :=
  { L with next := fun x => if x = a then q else L.next x }

@[simp] theorem setPrev_prev : (L.setPrev a p).prev x = if x = a then p else L.prev x := rfl
@[simp] theorem setPrev_next : (L.setPrev a p).next = L.next := rfl
@[simp] theorem setPrev_head : (L.setPrev a p).head = L.head := rfl
@[simp] theorem setPrev_tail : (L.setPrev a p).tail = L.tail := rfl
@[simp] theorem setNext_prev : (L.setNext a q).prev = L.prev := rfl
@[simp] theorem setNext_next : (L.setNext a q).next x = if x = a then q else L.next x := rfl
@[simp] theorem setNext_head : (L.setNext a q).head = L.head := rfl
@[simp] theorem setNext_tail : (L.setNext a q).tail = L.tail := rfl

/-- Set a field behind a pointer unless it is null. -/
def setPrevOf (L : Links α) (o p : Option α) : Links α := o.elim L fun a => L.setPrev a p

def setNextOf (L : Links α) (o q : Option α) : Links α := o.elim L fun a => L.setNext a q

section
variable {o : Option α}

@[simp] theorem setPrevOf_prev :
    (L.setPrevOf o p).prev x = if o = some x then p else L.prev x := by
  cases o with
  | none => simp [setPrevOf]
  | some a => simp [setPrevOf, eq_comm]

@[simp] theorem setPrevOf_next : (L.setPrevOf o p).next = L.next := by cases o <;> rfl
@[simp] theorem setPrevOf_head : (L.setPrevOf o p).head = L.head := by cases o <;> rfl
@[simp] theorem setPrevOf_tail : (L.setPrevOf o p).tail = L.tail := by cases o <;> rfl

@[simp] theorem setNextOf_next :
    (L.setNextOf o q).next x = if o = some x then q else L.next x := by
  cases o with
  | none => simp [setNextOf]
  | some a => simp [setNextOf, eq_comm]

@[simp] theorem setNextOf_prev : (L.setNextOf o q).prev = L.prev := by cases o <;> rfl
@[simp] theorem setNextOf_head : (L.setNextOf o q).head = L.head := by cases o <;> rfl
@[simp] theorem setNextOf_tail : (L.setNextOf o q).tail = L.tail := by cases o <;> rfl

end

end

/-- The fields of nodes that are not in `l` stay as they are. -/
def Frame (L : Links α) (l : List α) (L' : Links α) : Prop :=
  ∀ x, x ∉ l → L'.prev x = L.prev x ∧ L'.next x = L.next x

/-- The nodes of `l` follow each other, between `p` and `q`. -/
def Seg (L : Links α) : Option α → List α → Option α → Prop
  | _, [], _ => True
  | p, a :: l, q => L.prev a = p ∧ L.next a = l.head?.or q ∧ L.Seg (some a) l q

@[simp] theorem seg_nil : L.Seg p [] q := trivial

theorem seg_cons : L.Seg p (a :: l) q ↔
    L.prev a = p ∧ L.next a = l.head?.or q ∧ L.Seg (some a) l q := .rfl

theorem getLast?_cons_or : (a :: l).getLast?.or p = l.getLast?.or (some a) := by
  rw [List.getLast?_cons]
  cases l.getLast? <;> rfl

theorem seg_append : L.Seg p (l ++ r) q ↔
    L.Seg p l (r.head?.or q) ∧ L.Seg (l.getLast?.or p) r q := by
  induction l generalizing p with
  | nil => simp
  | cons a l ih =>
    rw [List.cons_append, seg_cons, seg_cons, ih, getLast?_cons_or, List.head?_append, Option.or_assoc,
      and_assoc, and_assoc]

theorem Seg.congr (h : L.Seg p l q) (hprev : ∀ a ∈ l, L'.prev a = L.prev a)
    (hnext : ∀ a ∈ l, L'.next a = L.next a) : L'.Seg p l q := by
  induction l generalizing p with
  | nil => trivial
  | cons a l ih =>
    obtain ⟨hp, hn, h⟩ := h
    exact ⟨(hprev a List.mem_cons_self).trans hp, (hnext a List.mem_cons_self).trans hn,
      ih h (fun b hb => hprev b (List.mem_cons_of_mem _ hb))
        fun b hb => hnext b (List.mem_cons_of_mem _ hb)⟩

/-- A segment is known from the fields of each node. -/
theorem Seg.of_split (h : ∀ l₁ a l₂, l = l₁ ++ a :: l₂ →
    L.prev a = l₁.getLast?.or p ∧ L.next a = l₂.head?.or q) : L.Seg p l q := by
  induction l generalizing p with
  | nil => trivial
  | cons a l ih =>
    obtain ⟨hp, hn⟩ := h [] a l rfl
    refine ⟨hp, hn, ih fun l₁ b l₂ hl => ?_⟩
    obtain ⟨hp, hn⟩ := h (a :: l₁) b l₂ (by rw [hl]; rfl)
    exact ⟨hp.trans getLast?_cons_or, hn⟩

/-- Nodes that all have new addresses. -/
theorem Seg.map {f : α → α} (h : L.Seg p l q)
    (hprev : ∀ a ∈ l, L'.prev (f a) = (L.prev a).map f)
    (hnext : ∀ a ∈ l, L'.next (f a) = (L.next a).map f) :
    L'.Seg (p.map f) (l.map f) (q.map f) := by
  induction l generalizing p with
  | nil => trivial
  | cons a l ih =>
    obtain ⟨hp, hn, h⟩ := h
    refine ⟨?_, ?_, ih h (fun b hb => hprev b (List.mem_cons_of_mem _ hb))
      fun b hb => hnext b (List.mem_cons_of_mem _ hb)⟩
    · rw [hprev a List.mem_cons_self, hp]
    · rw [hnext a List.mem_cons_self, hn, List.head?_map]
      cases l.head? <;> rfl

/-- The nodes from `o` on along `next`, at most `n` of them. -/
def walk (L : Links α) : Nat → Option α → List α
  | 0, _ => []
  | _ + 1, none => []
  | n + 1, some a => a :: L.walk n (L.next a)

theorem Seg.walk {n : Nat} (h : L.Seg p l none) (hn : l.length ≤ n) : L.walk n l.head? = l := by
  induction l generalizing p n with
  | nil => cases n <;> rfl
  | cons a l ih =>
    obtain ⟨-, hnext, h⟩ := h
    cases n with
    | zero => simp at hn
    | succ n =>
      rw [Option.or_none] at hnext
      rw [List.head?_cons, Links.walk, hnext, ih h (Nat.le_of_succ_le_succ hn)]

/-- The neighbours that `a` points at do not point at it. -/
structure Bypassed (L : Links α) (a : α) : Prop where
  prev : ∀ x, L.prev a = some x → L.next x = L.next a
  next : ∀ x, L.next a = some x → L.prev x = L.prev a

/-- The list of the links is `l`. -/
structure Linked (L : Links α) (l : List α) : Prop where
  nodup : l.Nodup
  head : L.head = l.head?
  tail : L.tail = l.getLast?
  seg : L.Seg none l none

namespace Linked

theorem prev_eq (h : L.Linked (l ++ a :: r)) : L.prev a = l.getLast? := by
  have := (seg_append.mp h.seg).2.1
  rwa [Option.or_none] at this

theorem next_eq (h : L.Linked (l ++ a :: r)) : L.next a = r.head? := by
  have := (seg_append.mp h.seg).2.2.1
  rwa [Option.or_none] at this

theorem mem_of_prev (h : L.Linked l) (ha : a ∈ l) (hp : L.prev a = some b) : b ∈ l := by
  obtain ⟨l₁, l₂, rfl⟩ := List.append_of_mem ha
  rw [h.prev_eq] at hp
  exact List.mem_append_left _ (List.mem_of_getLast? hp)

theorem mem_of_next (h : L.Linked l) (ha : a ∈ l) (hn : L.next a = some b) : b ∈ l := by
  obtain ⟨l₁, l₂, rfl⟩ := List.append_of_mem ha
  rw [h.next_eq] at hn
  exact List.mem_append_right _ (List.mem_cons_of_mem _ (List.mem_of_head? hn))

theorem next_of_prev (h : L.Linked l) (hb : b ∈ l) (hp : L.prev b = some a) :
    L.next a = some b := by
  obtain ⟨l₁, l₂, rfl⟩ := List.append_of_mem hb
  rw [h.prev_eq] at hp
  obtain ⟨l₁, rfl⟩ := List.getLast?_eq_some_iff.mp hp
  rw [List.append_assoc] at h
  exact h.next_eq

theorem prev_of_next (h : L.Linked l) (ha : a ∈ l) (hn : L.next a = some b) :
    L.prev b = some a := by
  obtain ⟨l₁, l₂, rfl⟩ := List.append_of_mem ha
  rw [h.next_eq] at hn
  obtain ⟨l₂, rfl⟩ := List.head?_eq_some_iff.mp hn
  rw [List.append_cons] at h
  rw [h.prev_eq, List.getLast?_concat]

/-- A node is not its own neighbour. -/
theorem prev_ne_self (h : L.Linked l) (ha : a ∈ l) : L.prev a ≠ some a := by
  obtain ⟨l₁, l₂, rfl⟩ := List.append_of_mem ha
  rw [h.prev_eq]
  intro hlast
  exact List.disjoint_of_nodup_append h.nodup (List.mem_of_getLast? hlast) List.mem_cons_self

theorem next_ne_self (h : L.Linked l) (ha : a ∈ l) : L.next a ≠ some a :=
  fun hn => h.prev_ne_self ha (h.prev_of_next ha hn)

/-- The ends of a list with two nodes or more differ. -/
theorem head_ne_tail (h : L.Linked l) (hl : 1 < l.length) : L.head ≠ L.tail := by
  obtain _ | ⟨a, _ | ⟨b, l⟩⟩ := l
  · simp at hl
  · simp at hl
  · rw [h.head, h.tail, List.head?_cons, List.getLast?_cons_cons]
    exact fun heq => (List.nodup_cons.mp h.nodup).1 (List.mem_of_getLast? heq.symm)

theorem exists_tail (h : L.Linked l) (hl : l ≠ []) : ∃ z ∈ l, L.tail = some z :=
  ⟨l.getLast hl, List.getLast_mem hl, h.tail.trans (List.getLast?_eq_some_getLast hl)⟩

theorem walk_head {n : Nat} (h : L.Linked l) (hn : l.length ≤ n) : L.walk n L.head = l := by
  rw [h.head]
  exact h.seg.walk hn

theorem nil (hhead : L.head = none) (htail : L.tail = none) : L.Linked [] :=
  ⟨List.nodup_nil, hhead, htail, trivial⟩

theorem congr (h : L.Linked l) (hhead : L'.head = L.head) (htail : L'.tail = L.tail)
    (hprev : ∀ a ∈ l, L'.prev a = L.prev a) (hnext : ∀ a ∈ l, L'.next a = L.next a) :
    L'.Linked l :=
  ⟨h.nodup, hhead.trans h.head, htail.trans h.tail, h.seg.congr hprev hnext⟩

/-- The first node leaves. -/
theorem pop (h : L.Linked (a :: b :: l)) (hhead : L'.head = some b) (htail : L'.tail = L.tail)
    (hb : L'.prev b = none) (hprev : ∀ x ∈ l, L'.prev x = L.prev x)
    (hnext : ∀ x ∈ b :: l, L'.next x = L.next x) : L'.Linked (b :: l) := by
  obtain ⟨-, -, -, hn, hseg⟩ := h.seg
  refine ⟨h.nodup.tail, hhead, htail.trans (h.tail.trans List.getLast?_cons_cons), hb, ?_, ?_⟩
  · exact (hnext b List.mem_cons_self).trans hn
  · exact hseg.congr hprev fun x hx => hnext x (List.mem_cons_of_mem _ hx)

/-- The first node after it left, with the fields that it had. -/
theorem bypassed_of_head (h : L.Linked l) (hprev : L.prev a = none) (hnext : L.next a = L.head) :
    L.Bypassed a where
  prev x hx := by rw [hprev] at hx; cases hx
  next x hx := by
    rw [hnext, h.head] at hx
    obtain ⟨l, rfl⟩ := List.head?_eq_some_iff.mp hx
    rw [hprev]
    exact h.seg.1

/-- A node between two others leaves. -/
theorem bridge (h : L.Linked (l ++ x :: a :: y :: r)) (hhead : L'.head = L.head)
    (htail : L'.tail = L.tail) (hx : L'.next x = some y) (hy : L'.prev y = some x)
    (hprev : ∀ z ∈ l ++ x :: r, L'.prev z = L.prev z)
    (hnext : ∀ z ∈ l ++ y :: r, L'.next z = L.next z) : L'.Linked (l ++ x :: y :: r) := by
  obtain ⟨hl, hpx, -, -, -, -, hny, hr⟩ := seg_append.mp h.seg
  refine ⟨?_, ?_, ?_, seg_append.mpr ⟨?_, ?_, hx, hy, ?_, ?_⟩⟩
  · exact h.nodup.sublist (.append_left (.cons_cons _ (.cons _ (.refl _))) _)
  · rw [hhead, h.head]; simp
  · rw [htail, h.tail]; simp
  · exact hl.congr (fun z hz => hprev z (List.mem_append_left _ hz))
      fun z hz => hnext z (List.mem_append_left _ hz)
  · exact (hprev x (by simp)).trans hpx
  · exact (hnext y (by simp)).trans hny
  · exact hr.congr (fun z hz => hprev z (by simp [hz])) fun z hz => hnext z (by simp [hz])

/-- A node joins at the tail. -/
theorem push (h : L.Linked l) (hlast : L.tail = some z) (ha : a ∉ l) (hhead : L'.head = L.head)
    (htail : L'.tail = some a) (hz : L'.next z = some a) (hpa : L'.prev a = some z)
    (hna : L'.next a = none) (hprev : ∀ x ∈ l, L'.prev x = L.prev x)
    (hnext : ∀ x ∈ l, x ≠ z → L'.next x = L.next x) : L'.Linked (l ++ [a]) := by
  obtain ⟨l, rfl⟩ := List.getLast?_eq_some_iff.mp (h.tail.symm.trans hlast)
  have hzl : z ∉ l := fun hz => by simpa using (List.nodup_append.mp h.nodup).2.2 z hz z
  obtain ⟨hl, hpz, -, -⟩ := seg_append.mp h.seg
  refine ⟨?_, ?_, by simp [htail], ?_⟩
  · exact List.nodup_append.mpr ⟨h.nodup, by simp, fun x hx y hy => by
      obtain rfl := List.mem_singleton.mp hy
      rintro rfl
      exact ha hx⟩
  · rw [hhead, h.head]; simp
  · rw [List.append_assoc]
    refine seg_append.mpr ⟨?_, (hprev z (by simp)).trans hpz, hz, hpa, hna, trivial⟩
    refine hl.congr (fun x hx => hprev x (by simp [hx])) fun x hx => ?_
    exact hnext x (by simp [hx]) fun heq => hzl (heq ▸ hx)

variable [DecidableEq α]

/-- A node moves to an address that is not on the list: its neighbours and the ends follow. -/
theorem rename (h : L.Linked l) (ha : a ∈ l) (hb : b ∉ l)
    (hhead : L'.head = if L.head = some a then some b else L.head)
    (htail : L'.tail = if L.tail = some a then some b else L.tail)
    (hpb : L'.prev b = L.prev a) (hnb : L'.next b = L.next a)
    (hprev : ∀ x ∈ l, x ≠ a → L'.prev x = if L.next a = some x then some b else L.prev x)
    (hnext : ∀ x ∈ l, x ≠ a → L'.next x = if L.prev a = some x then some b else L.next x) :
    L'.Linked (l.map fun x => if x = a then b else x) := by
  have hmap : ∀ o : Option α, (if o = some a then some b else o) =
      o.map fun x => if x = a then b else x := by
    rintro (_ | x)
    · rfl
    · by_cases hx : x = a <;> simp [hx]
  refine ⟨?_, ?_, ?_, ?_⟩
  · refine h.nodup.map_on fun x hx y hy hxy => ?_
    by_cases hxa : x = a <;> by_cases hya : y = a <;> simp only [hxa, hya, if_true, if_false] at hxy
    · rw [hxa, hya]
    · exact absurd (hxy ▸ hy) hb
    · exact absurd (hxy ▸ hx) hb
    · exact hxy
  · rw [hhead, hmap, h.head, List.head?_map]
  · rw [htail, hmap, h.tail, List.getLast?_map]
  · refine h.seg.map (fun x hx => ?_) fun x hx => ?_
    · rw [← hmap]
      by_cases hxa : x = a
      · rw [if_pos hxa, hpb, hxa, if_neg (h.prev_ne_self ha)]
      · rw [if_neg hxa, hprev x hx hxa]
        exact if_congr ⟨h.prev_of_next ha, h.next_of_prev hx⟩ rfl rfl
    · rw [← hmap]
      by_cases hxa : x = a
      · rw [if_pos hxa, hnb, hxa, if_neg (h.next_ne_self ha)]
      · rw [if_neg hxa, hnext x hx hxa]
        exact if_congr ⟨h.next_of_prev ha, h.prev_of_next hx⟩ rfl rfl

end Linked

/-! ## The links of a list -/

/-- A list determines the fields of its nodes. -/
theorem Linked.fields_eq (h : L.Linked l) (h' : L'.Linked l) (ha : a ∈ l) :
    L'.prev a = L.prev a ∧ L'.next a = L.next a := by
  obtain ⟨l₁, l₂, rfl⟩ := List.append_of_mem ha
  exact ⟨h'.prev_eq.trans h.prev_eq.symm, h'.next_eq.trans h.next_eq.symm⟩

variable [DecidableEq α]

instance : Decidable (L.Bypassed a) :=
  decidable_of_iff ((∀ x ∈ L.prev a, L.next x = L.next a) ∧ ∀ x ∈ L.next a, L.prev x = L.prev a)
    ⟨fun h => ⟨h.1, h.2⟩, fun h => ⟨h.prev, h.next⟩⟩

/-- The node behind `a` in `l`. -/
def nextIn : List α → α → Option α
  | [], _ => none
  | b :: l, a => if b = a then l.head? else nextIn l a

def ofList (l : List α) : Links α where
  prev := nextIn l.reverse
  next := nextIn l
  head := l.head?
  tail := l.getLast?

theorem nextIn_append (h : a ∉ l) : nextIn (l ++ r) a = nextIn r a := by
  induction l with
  | nil => rfl
  | cons b l ih =>
    rw [List.cons_append, nextIn, if_neg (List.ne_of_not_mem_cons h).symm,
      ih (List.not_mem_of_not_mem_cons h)]

theorem nextIn_eq_none (h : a ∉ l) : nextIn l a = none := by
  have := nextIn_append (r := []) h
  rwa [List.append_nil] at this

theorem ofList_linked (h : l.Nodup) : (ofList l).Linked l := by
  refine ⟨h, rfl, rfl, Seg.of_split fun l₁ a l₂ hl => ?_⟩
  rw [hl] at h
  obtain ⟨-, h₂, hdisj⟩ := List.nodup_append'.mp h
  have h₁ : a ∉ l₁ := fun hmem => hdisj hmem List.mem_cons_self
  have h₂ : a ∉ l₂.reverse := by simpa using (List.nodup_cons.mp h₂).1
  constructor
  · have hrev : l.reverse = l₂.reverse ++ a :: l₁.reverse := by simp [hl]
    change nextIn l.reverse a = _
    rw [hrev, nextIn_append h₂, nextIn, if_pos rfl, List.head?_reverse, Option.or_none]
  · change nextIn l a = _
    rw [hl, nextIn_append h₁, nextIn, if_pos rfl, Option.or_none]

theorem ofList_eq_none (h : a ∉ l) : (ofList l).prev a = none ∧ (ofList l).next a = none :=
  ⟨nextIn_eq_none (by simpa using h), nextIn_eq_none h⟩

end Links

end C2DN
