import C2DN.Lib.LinkedList

/-!
# The list of a cache

The operations on the doubly linked list of a cache: `move_obj_to_tail` and `remove_obj_from_list` of
`cacheObj.h`, the parts of `cache_insert_LRU` and `cache_evict` that change the list, and the two helpers of
`chainedHashtable.c` that the hash table calls when an object moves or leaves. A null pointer or an
assertion is a `MemFault`. `list_head` and `list_tail` are the monitored pointers of the hash table.
-/

namespace C2DN.Simulator

/-- How a call ends that does not return. -/
inductive MemFault where
  | nullPointer
  /-- an assertion of `move_obj_to_tail` on a list with one element -/
  | notOnlyObj
  /-- `assert(!OBJ_EMPTY(cache_obj_in_bucket))` -/
  | emptyBucket
  /-- `assert(cache_obj_in_bucket != NULL)` -/
  | notInBucket
  /-- a loop that goes on: `cache_get` evicts more objects than there were, or a walk along `hash_next`
  meets more structs than there are -/
  | unended
  /-- `assert(check(req, nullptr))` at the end of `cacheServer::get` -/
  | objectLost
  /-- an access to the object of a request that is not in the cache -/
  | noObject
  /-- `assert(cache->occupied_size >= cache_obj->obj_size)` -/
  | negativeSize
  deriving DecidableEq, Repr

namespace ObjList
variable {α : Type} [DecidableEq α]

/-- `update_monitored_ptr`. -/
def updateMonitoredPtr (L : Links α) (newObj : Option α) (oldObj : α) : Links α :=
  { L with
    head := if L.head = some oldObj then newObj else L.head
    tail := if L.tail = some oldObj then newObj else L.tail }

/-- The list fields in `_move_obj_to_new_loc`. -/
def moveObjToNewLoc (L : Links α) (newObj oldObj : α) : Links α :=
  let L := L.setNextOf (L.prev oldObj) (some newObj)
  let L := L.setPrevOf (L.next oldObj) (some newObj)
  let L := (L.setPrev newObj (L.prev oldObj)).setNext newObj (L.next oldObj)
  updateMonitoredPtr L (some newObj) oldObj

/-- `delete_obj_in_table`. -/
def deleteObjInTable (L : Links α) (obj : α) : Links α :=
  let L := L.setNextOf (L.prev obj) (L.next obj)
  let L := L.setPrevOf (L.next obj) (L.prev obj)
  updateMonitoredPtr L none obj

/-- The end of `move_obj_to_tail`. -/
def moveBehind (L : Links α) (obj : α) : Except MemFault (Links α) :=
  match L.tail with
  | none => .error .nullPointer
  | some t =>
    .ok { ((L.setNext t (some obj)).setNext obj none).setPrev obj (some t) with tail := some obj }

/-- `move_obj_to_tail`. -/
def moveObjToTail (L : Links α) (obj : α) : Except MemFault (Links α) :=
  if L.head = L.tail then
    if some obj = L.head ∧ L.next obj = none ∧ L.prev obj = none then .ok L else .error .notOnlyObj
  else if some obj = L.head then
    match L.next obj with
    | none => .error .nullPointer
    | some n => moveBehind ({ L with head := some n }.setPrev n none) obj
  else if some obj = L.tail then .ok L
  else
    match L.prev obj, L.next obj with
    | some p, some n => moveBehind ((L.setNext p (some n)).setPrev n (some p)) obj
    | _, _ => .error .nullPointer

/-- `remove_obj_from_list`: the head is taken to have a successor, also when it is the only object. -/
def removeObjFromList (L : Links α) (obj : α) : Except MemFault (Links α) :=
  if some obj = L.head then
    match L.next obj with
    | none => .error .nullPointer
    | some n => .ok ({ L with head := some n }.setPrev n none)
  else if some obj = L.tail then
    match L.prev obj with
    | none => .error .nullPointer
    | some p => .ok ({ L with tail := some p }.setNext p none)
  else
    match L.prev obj, L.next obj with
    | some p, some n =>
      .ok ((((L.setNext p (some n)).setPrev n (some p)).setPrev obj none).setNext obj none)
    | _, _ => .error .nullPointer

/-- The list in `cache_insert_LRU`. -/
def insertObj (L : Links α) (obj : α) : Except MemFault (Links α) :=
  if L.head = none then .ok { L with head := some obj, tail := some obj }
  else
    match L.tail with
    | none => .error .nullPointer
    | some t => .ok { (L.setNext t (some obj)).setPrev obj (some t) with tail := some obj }

/-- The list in `cache_evict`, with the object to evict: the only object has no successor to become
the head. -/
def evictHead (L : Links α) : Except MemFault (Links α × α) :=
  match L.head with
  | none => .error .nullPointer
  | some obj =>
    match L.next obj with
    | none => .error .nullPointer
    | some n => .ok ({ L with head := some n }.setPrev n none, obj)

/-! ## The list after an operation -/

variable {L : Links α} {l : List α} {a b : α}

/-- The links of an object that moves are those it had: no object is its own neighbour. -/
theorem moveObjToNewLoc_links {x : α} (h : L.Linked l) (ha : a ∈ l) :
    (moveObjToNewLoc L b a).prev x =
        (if x = b then L.prev a else if L.next a = some x then some b else L.prev x) ∧
      (moveObjToNewLoc L b a).next x =
        if x = b then L.next a else if L.prev a = some x then some b else L.next x := by
  have hp := h.prev_ne_self ha
  have hn := h.next_ne_self ha
  simp [moveObjToNewLoc, updateMonitoredPtr, hp, hn]

theorem moveObjToNewLoc_ends : (moveObjToNewLoc L b a).head =
      (if L.head = some a then some b else L.head) ∧
    (moveObjToNewLoc L b a).tail = if L.tail = some a then some b else L.tail := by
  simp [moveObjToNewLoc, updateMonitoredPtr]

theorem moveObjToNewLoc_spec (h : L.Linked l) (ha : a ∈ l) (hb : b ∉ l) :
    (moveObjToNewLoc L b a).Linked (l.map fun x => if x = a then b else x) ∧
      L.Frame (b :: l) (moveObjToNewLoc L b a) := by
  have hlinks := fun x => moveObjToNewLoc_links (b := b) (x := x) h ha
  constructor
  · refine h.rename ha hb moveObjToNewLoc_ends.1 moveObjToNewLoc_ends.2 ?_ ?_ ?_ ?_
    · exact (hlinks b).1.trans (if_pos rfl)
    · exact (hlinks b).2.trans (if_pos rfl)
    · exact fun x hx _ => (hlinks x).1.trans (if_neg (ne_of_mem_of_not_mem hx hb))
    · exact fun x hx _ => (hlinks x).2.trans (if_neg (ne_of_mem_of_not_mem hx hb))
  · intro x hx
    have hxb := List.ne_of_not_mem_cons hx
    have hxl := List.not_mem_of_not_mem_cons hx
    rw [(hlinks x).1, (hlinks x).2, if_neg hxb, if_neg hxb]
    exact ⟨if_neg fun hn => hxl (h.mem_of_next ha hn), if_neg fun hp => hxl (h.mem_of_prev ha hp)⟩

/-- An object moves, whether it is on the list or not. -/
theorem moveObjToNewLoc_linked (h : L.Linked l) (hoff : a ∉ l → L.prev a = none ∧ L.next a = none)
    (hb : b ∉ l) : (moveObjToNewLoc L b a).Linked (l.map fun x => if x = a then b else x) ∧
      L.Frame (b :: l) (moveObjToNewLoc L b a) ∧
      (a ∉ l → (moveObjToNewLoc L b a).prev b = none ∧ (moveObjToNewLoc L b a).next b = none) := by
  by_cases ha : a ∈ l
  · obtain ⟨hlinked, hframe⟩ := moveObjToNewLoc_spec h ha hb
    exact ⟨hlinked, hframe, fun hal => absurd ha hal⟩
  · obtain ⟨hp, hn⟩ := hoff ha
    have hhead : L.head ≠ some a := by rw [h.head]; exact fun hh => ha (List.mem_of_head? hh)
    have htail : L.tail ≠ some a := by rw [h.tail]; exact fun ht => ha (List.mem_of_getLast? ht)
    have hprev : ∀ x, (moveObjToNewLoc L b a).prev x = if x = b then none else L.prev x := by
      simp [moveObjToNewLoc, updateMonitoredPtr, hp, hn]
    have hnext : ∀ x, (moveObjToNewLoc L b a).next x = if x = b then none else L.next x := by
      simp [moveObjToNewLoc, updateMonitoredPtr, hp, hn]
    have hmap : (l.map fun x => if x = a then b else x) = l :=
      (List.map_congr_left fun x hx => if_neg (ne_of_mem_of_not_mem hx ha)).trans (List.map_id l)
    rw [hmap]
    refine ⟨h.congr ?_ ?_ (fun x hx => ?_) fun x hx => ?_, fun x hx => ?_, fun _ => ⟨?_, ?_⟩⟩
    · rw [moveObjToNewLoc_ends.1, if_neg hhead]
    · rw [moveObjToNewLoc_ends.2, if_neg htail]
    · rw [hprev, if_neg (ne_of_mem_of_not_mem hx hb)]
    · rw [hnext, if_neg (ne_of_mem_of_not_mem hx hb)]
    · rw [hprev, hnext, if_neg (List.ne_of_not_mem_cons hx), if_neg (List.ne_of_not_mem_cons hx)]
      exact ⟨rfl, rfl⟩
    · rw [hprev, if_pos rfl]
    · rw [hnext, if_pos rfl]

/-- Nothing is left to do for an object that was taken off the list before. -/
theorem deleteObjInTable_eq (h : L.Linked l) (ha : a ∉ l) (hpass : L.Bypassed a) :
    deleteObjInTable L a = L := by
  have hhead : L.head ≠ some a := by rw [h.head]; exact fun hh => ha (List.mem_of_head? hh)
  have htail : L.tail ≠ some a := by rw [h.tail]; exact fun ht => ha (List.mem_of_getLast? ht)
  have hset : L.setNextOf (L.prev a) (L.next a) = L := by
    cases hp : L.prev a with
    | none => rfl
    | some p =>
      have hnext : (fun x => if x = p then L.next a else L.next x) = L.next := by
        funext x
        split
        · next hx => rw [hx]; exact (hpass.prev p hp).symm
        · rfl
      exact congrArg (fun next => { L with next }) hnext
  have hset' : L.setPrevOf (L.next a) (L.prev a) = L := by
    cases hn : L.next a with
    | none => rfl
    | some n =>
      have hprev : (fun x => if x = n then L.prev a else L.prev x) = L.prev := by
        funext x
        split
        · next hx => rw [hx]; exact (hpass.next n hn).symm
        · rfl
      exact congrArg (fun prev => { L with prev }) hprev
  unfold deleteObjInTable
  rw [hset]
  dsimp only
  rw [hset', updateMonitoredPtr, if_neg hhead, if_neg htail]

theorem moveBehind_spec {t : α} (h : L.Linked l) (ht : L.tail = some t) (ha : a ∉ l) :
    ∃ L', moveBehind L a = .ok L' ∧ L'.Linked (l ++ [a]) ∧ L.Frame (l ++ [a]) L' := by
  have htl : t ∈ l := List.mem_of_getLast? (h.tail.symm.trans ht)
  have hta : t ≠ a := ne_of_mem_of_not_mem htl ha
  refine ⟨_, by rw [moveBehind, ht], ?_, ?_⟩
  · refine h.push ht ha rfl rfl ?_ ?_ ?_ ?_ ?_
    · simp [hta]
    · simp
    · simp
    · exact fun x hx => if_neg (ne_of_mem_of_not_mem hx ha)
    · intro x hx hxt
      have hxa : x ≠ a := ne_of_mem_of_not_mem hx ha
      simp [hxa, hxt]
  · intro x hx
    have hxa : x ≠ a := fun heq => hx (by simp [heq])
    have hxt : x ≠ t := fun heq => hx (by simp [heq, htl])
    simp [hxa, hxt]

theorem filter_ne_middle {l₁ l₂ : List α} (h : (l₁ ++ a :: l₂).Nodup) :
    (l₁ ++ a :: l₂).filter (· ≠ a) = l₁ ++ l₂ := by
  obtain ⟨-, h₂, h⟩ := List.nodup_append.mp h
  have h₁ : l₁.filter (· ≠ a) = l₁ :=
    List.filter_eq_self.mpr fun x hx => by simpa using h x hx a List.mem_cons_self
  have h₂ : l₂.filter (· ≠ a) = l₂ := by
    refine List.filter_eq_self.mpr fun x hx => ?_
    simp only [ne_eq, decide_not, Bool.not_eq_eq_eq_not, Bool.not_true, decide_eq_false_iff_not]
    rintro rfl
    exact (List.nodup_cons.mp h₂).1 hx
  rw [List.filter_append, h₁, List.filter_cons_of_neg (by simp), h₂]

theorem moveObjToTail_spec (h : L.Linked l) (ha : a ∈ l) :
    ∃ L', moveObjToTail L a = .ok L' ∧ L'.Linked (l.filter (· ≠ a) ++ [a]) ∧ L.Frame l L' := by
  obtain ⟨l₁, l₂, rfl⟩ := List.append_of_mem ha
  rw [filter_ne_middle h.nodup]
  have hprev := h.prev_eq
  have hnext := h.next_eq
  obtain ⟨hnodup₁, hnodup₂, hdisj⟩ := List.nodup_append.mp h.nodup
  have ha₁ : a ∉ l₁ := fun hmem => hdisj a hmem a List.mem_cons_self rfl
  have ha₂ : a ∉ l₂ := (List.nodup_cons.mp hnodup₂).1
  have hmem : a ∉ l₁ ++ l₂ := by simp [ha₁, ha₂]
  have hframe' : ∀ z, z ∉ l₁ ++ a :: l₂ → z ∉ l₁ ++ l₂ ++ [a] := by
    intro z hz
    simp only [List.mem_append, List.mem_cons, List.not_mem_nil, or_false] at hz ⊢
    tauto
  -- an end that is in one of the two parts is not the object
  have hhead : l₁ ≠ [] → some a ≠ L.head := by
    intro hne hh
    rw [h.head, List.head?_append_of_ne_nil _ hne] at hh
    exact ha₁ (List.mem_of_head? hh.symm)
  have htail : l₂ ≠ [] → some a ≠ L.tail := by
    intro hne ht
    rw [h.tail, List.getLast?_append_of_ne_nil _ (by simp), List.getLast?_cons_of_ne_nil hne] at ht
    exact ha₂ (List.mem_of_getLast? ht.symm)
  unfold moveObjToTail
  rcases List.eq_nil_or_concat' l₁ with rfl | ⟨l₀, x, rfl⟩ <;> rcases l₂ with _ | ⟨y, l₃⟩
  · -- the only object
    have hsame : L.head = L.tail := by rw [h.head, h.tail]; rfl
    rw [if_pos hsame, if_pos ⟨h.head.symm, hnext, hprev⟩]
    exact ⟨L, rfl, h, fun x _ => ⟨rfl, rfl⟩⟩
  · -- the head
    have hself : L.head = some a := h.head
    rw [if_neg (h.head_ne_tail (by simp)), if_pos hself.symm, hnext]
    have hy : y ∉ l₃ := (List.nodup_cons.mp hnodup₂.tail).1
    have hpop : ({ L with head := some y }.setPrev y none).Linked (y :: l₃) :=
      h.pop rfl rfl (if_pos rfl) (fun z hz => if_neg (ne_of_mem_of_not_mem hz hy)) fun z _ => rfl
    obtain ⟨t, -, ht⟩ := hpop.exists_tail (by simp)
    obtain ⟨L', hL', hlinked, hframe⟩ := moveBehind_spec hpop ht hmem
    refine ⟨L', hL', hlinked, fun z hz => ?_⟩
    obtain ⟨hp, hn⟩ := hframe z (hframe' z hz)
    exact ⟨hp.trans (if_neg fun heq => hz (by simp [heq])), hn⟩
  · -- the tail
    have hself : L.tail = some a := by rw [h.tail]; simp
    rw [if_neg (h.head_ne_tail (by simp)), if_neg (hhead (by simp)), if_pos hself.symm]
    exact ⟨L, rfl, by simpa using h, fun x _ => ⟨rfl, rfl⟩⟩
  · -- between two objects
    have hprev' : L.prev a = some x := by rw [hprev]; simp
    have hlength : 1 < (l₀ ++ [x] ++ a :: y :: l₃).length := by simp; omega
    rw [if_neg (h.head_ne_tail hlength), if_neg (hhead (by simp)), if_neg (htail (by simp)), hprev',
      hnext, List.head?_cons]
    dsimp only
    have hx₁ : x ∉ l₀ := by simpa using (List.nodup_append'.mp hnodup₁).2.2
    have hx₂ : x ∉ y :: l₃ := fun hx => hdisj x (by simp) x (List.mem_cons_of_mem _ hx) rfl
    have hy₁ : y ∉ l₀ ++ [x] := fun hy => hdisj y hy y (by simp) rfl
    have hy₂ : y ∉ l₃ := (List.nodup_cons.mp hnodup₂.tail).1
    have hbridge : ((L.setNext x (some y)).setPrev y (some x)).Linked (l₀ ++ x :: y :: l₃) := by
      rw [← List.append_cons] at h
      refine h.bridge rfl rfl (if_pos rfl) (if_pos rfl) (fun z hz => if_neg ?_) fun z hz => if_neg ?_
      · exact ne_of_mem_of_not_mem hz (by simpa [hy₂] using hy₁)
      · exact ne_of_mem_of_not_mem hz (by simpa [hx₁] using hx₂)
    rw [List.append_cons] at hbridge
    obtain ⟨t, -, ht⟩ := hbridge.exists_tail (by simp)
    obtain ⟨L', hL', hlinked, hframe⟩ := moveBehind_spec hbridge ht hmem
    refine ⟨L', hL', hlinked, fun z hz => ?_⟩
    obtain ⟨hp, hn⟩ := hframe z (hframe' z hz)
    exact ⟨hp.trans (if_neg fun heq => hz (by simp [heq])),
      hn.trans (if_neg fun heq => hz (by simp [heq]))⟩

theorem insertObj_spec (h : L.Linked l) (ha : a ∉ l) (hprev : L.prev a = none)
    (hnext : L.next a = none) :
    ∃ L', insertObj L a = .ok L' ∧ L'.Linked (l ++ [a]) ∧ L.Frame (l ++ [a]) L' := by
  cases l with
  | nil =>
    refine ⟨_, by rw [insertObj, h.head]; rfl, ⟨List.nodup_singleton a, rfl, rfl, ?_⟩, ?_⟩
    · exact ⟨hprev, hnext, trivial⟩
    · exact fun x _ => ⟨rfl, rfl⟩
  | cons b l =>
    obtain ⟨t, htl, ht⟩ := h.exists_tail (List.cons_ne_nil b l)
    have hta : t ≠ a := ne_of_mem_of_not_mem htl ha
    have hhead : L.head ≠ none := by rw [h.head]; simp
    refine ⟨_, by rw [insertObj, if_neg hhead, ht], ?_, ?_⟩
    · refine h.push ht ha rfl rfl ?_ ?_ ?_ ?_ ?_
      · simp
      · simp
      · simpa [hta.symm] using hnext
      · exact fun x hx => if_neg (ne_of_mem_of_not_mem hx ha)
      · intro x hx hxt
        simp [hxt]
    · intro x hx
      have hxa : x ≠ a := fun heq => hx (by simp [heq])
      have hxt : x ≠ t := fun heq => hx (List.mem_append_left _ (heq ▸ htl))
      simp [hxa, hxt]

theorem evictHead_spec (h : L.Linked (a :: l)) (hl : l ≠ []) :
    ∃ L', evictHead L = .ok (L', a) ∧ L'.Linked l ∧ L.Frame l L' ∧ L'.prev a = none ∧
      L'.next a = L'.head := by
  obtain ⟨b, l, rfl⟩ := List.exists_cons_of_ne_nil hl
  have hnext : L.next a = some b := h.next_eq (l := [])
  have hprev : L.prev a = none := h.prev_eq (l := [])
  have hab : a ≠ b := fun heq => (List.nodup_cons.mp h.nodup).1 (by simp [heq])
  have hbl : b ∉ l := (List.nodup_cons.mp h.nodup.tail).1
  refine ⟨{ L with head := some b }.setPrev b none, ?_, ?_, ?_, ?_, hnext⟩
  · simp only [evictHead, h.head, List.head?_cons, hnext]
  · refine h.pop rfl rfl (if_pos rfl) ?_ fun x _ => rfl
    exact fun x hx => if_neg (ne_of_mem_of_not_mem hx hbl)
  · exact fun x hx => ⟨if_neg fun heq => hx (by simp [heq]), rfl⟩
  · exact (if_neg hab).trans hprev

end ObjList

end C2DN.Simulator
