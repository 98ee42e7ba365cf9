import Mathlib.Algebra.Ring.Int.Defs
import Mathlib.Data.List.TakeWhile
import C2DN.Frontend.Transaction

/-!
# The parsers of the unavailability trace

`parseUnavailTrace` of the load balancer and `load_failure_data` of the simulator read the same file:
line `i` names the servers that are down in interval `i`. Both split a line at every single blank. The
first one ignores the error of `strconv.Atoi` and goes on with the value that comes with it, which is 0
for a token that is not a number; the other one reads as much of a token as is a number, and throws if
there is none.

A file is a list of characters, one for every byte.
-/

namespace C2DN.LoadBalancer

open Frontend.Goroutines (atoi)

/-! ## Numbers -/

/-- The sign of a number, and what follows it. -/
def signOf : List Char → Bool × List Char
  | '-' :: digits => (true, digits)
  | '+' :: digits => (false, digits)
  | digits => (false, digits)

def decimal (digits : List Char) : Int :=
  ((digits.foldl (fun n d => 10 * n + (d.toNat - '0'.toNat)) 0 : Nat) : Int)

/-- The integer that a token is, without a bound. -/
def numeral (token : List Char) : Option Int :=
  let (neg, digits) := signOf token
  if digits = [] ∨ digits.any (!·.isDigit) then none
  else some (if neg then -decimal digits else decimal digits)

/-- `nodeInt, _ := strconv.Atoi(node)`: 0 after a syntax error, and the bound of `int` after a range
error. The digits are read from left to right, and when they are out of the range of a `uint64`, what
comes after them is not read. -/
def atoiValue (node : List Char) : Int :=
  match atoi node with
  | some nodeInt => nodeInt
  | none =>
    let (neg, rest) := signOf node
    if numeral node = none ∧ decimal (rest.takeWhile Char.isDigit) < 2 ^ 64 then 0
    else if neg then -2 ^ 63 else 2 ^ 63 - 1

example : atoiValue "99999999999999999999x".toList = 2 ^ 63 - 1 ∧ atoiValue "9x".toList = 0 := by
  decide

/-- The exceptions of `stoi`. -/
inductive StoiError where
  | invalidArgument
  | outOfRange
  deriving DecidableEq, Repr

/-- `isspace`. -/
def isSpace (c : Char) : Bool :=
  c == ' ' || c == '\t' || c == '\n' || c == '\x0b' || c == '\x0c' || c == '\r'

/-- `stoi`: blanks, a sign and digits, and the rest of the text does not matter. -/
def stoi (text : List Char) : Except StoiError Int :=
  let (neg, rest) := signOf (text.dropWhile isSpace)
  let digits := rest.takeWhile Char.isDigit
  if digits = [] then .error .invalidArgument
  else
    let v := if neg then -decimal digits else decimal digits
    if -2 ^ 31 ≤ v ∧ v < 2 ^ 31 then .ok v else .error .outOfRange

/-! ## Files -/

/-- The tokens of a line that is not empty, `strings.Split` and `boost::split` at `' '`. -/
def tokensOf (line : List Char) : List (List Char) := if line = [] then [] else line.splitOn ' '

def parseUnavailTrace (file : List Char) : List (List Int) :=
  (file.splitOn '\n').map fun g => (tokensOf g).map atoiValue

/-- The lines of `getline`: there is none behind the last line end. -/
def getlines (file : List Char) : List (List Char) :=
  let lines := file.splitOn '\n'
  if lines.getLast? = some [] then lines.dropLast else lines

/-- `load_failure_data`: `failure_vector_deque`. -/
def loadFailureData (file : List Char) : Except StoiError (List (List Int)) :=
  (getlines file).mapM fun line => (tokensOf line).mapM stoi

/-! ## What the parsers are for -/

/-- A line has this integer between blanks, tabs and other white space. -/
def Named (line : List Char) (v : Int) : Prop := ∃ t ∈ line.splitOnP isSpace, numeral t = some v

/-- No failure is invented, and the simulator reads the same failures if it does not throw. -/
def ReadsUnavail (file : List Char) : Prop :=
  (∀ (i : Nat) line vs, (file.splitOn '\n')[i]? = some line → (parseUnavailTrace file)[i]? = some vs →
    ∀ v ∈ vs, Named line v) ∧
  ∀ vss, loadFailureData file = .ok vss →
    vss = (parseUnavailTrace file).take (getlines file).length

/-- No token of a file makes `stoi` throw. -/
def NoThrow (file : List Char) : Prop :=
  ∀ line ∈ file.splitOn '\n', ∀ t ∈ tokensOf line, ∃ v, stoi t = .ok v

/-- A token that `Atoi` does not accept does no harm in its line: the value that comes with the error is
in the line, and the simulator reads 0 if it does not throw at all. -/
def Harmless (file line t : List Char) : Prop :=
  Named line (atoiValue t) ∧ (NoThrow file → stoi t = .ok 0)

/-! ## Pieces of a list -/

section
variable {α : Type} {p q : α → Bool} {t l : List α}

/-- A finer split has the same first piece, if nothing splits it. -/
theorem splitOnP_head_of_imp (h : ∀ a, p a = true → q a = true) {rest : List (List α)}
    (hl : l.splitOnP p = t :: rest) (ht : ∀ a ∈ t, q a = false) :
    ∃ rest', l.splitOnP q = t :: rest' := by
  induction l generalizing t with
  | nil => exact ⟨_, by rw [← (List.cons.inj (List.splitOnP_nil.symm.trans hl)).1, List.splitOnP_nil]⟩
  | cons a l ih =>
    rw [List.splitOnP_cons_eq_if_modifyHead] at hl ⊢
    cases hp : p a with
    | true =>
      rw [if_pos hp] at hl
      rw [if_pos (h a hp), ← (List.cons.inj hl).1]
      exact ⟨_, rfl⟩
    | false =>
      rw [if_neg (by rw [hp]; exact Bool.false_ne_true)] at hl
      obtain ⟨u, us, hu⟩ := List.exists_cons_of_ne_nil (List.splitOnP_ne_nil p l)
      rw [hu, List.modifyHead_cons] at hl
      obtain ⟨rfl, rfl⟩ := List.cons.inj hl
      obtain ⟨rest', hrest'⟩ := ih hu fun b hb => ht b (List.mem_cons_of_mem _ hb)
      rw [if_neg (by rw [ht a List.mem_cons_self]; exact Bool.false_ne_true), hrest']
      exact ⟨rest', rfl⟩

theorem splitOnP_tail_of_imp (h : ∀ a, p a = true → q a = true) (hl : t ∈ (l.splitOnP p).tail)
    (ht : ∀ a ∈ t, q a = false) : t ∈ (l.splitOnP q).tail := by
  induction l with
  | nil => simp at hl
  | cons a l ih =>
    obtain ⟨u, us, hu⟩ := List.exists_cons_of_ne_nil (List.splitOnP_ne_nil p l)
    rw [List.splitOnP_cons_eq_if_modifyHead] at hl ⊢
    cases hp : p a with
    | true =>
      rw [if_pos hp, List.tail_cons, hu] at hl
      rw [if_pos (h a hp), List.tail_cons]
      rcases List.mem_cons.mp hl with rfl | hl
      · obtain ⟨rest', hrest'⟩ := splitOnP_head_of_imp h hu ht
        rw [hrest']
        exact List.mem_cons_self
      · exact List.mem_of_mem_tail (ih (by rw [hu]; exact hl))
    | false =>
      rw [if_neg (by rw [hp]; exact Bool.false_ne_true), List.tail_modifyHead] at hl
      have htail := ih hl
      split
      · exact List.mem_of_mem_tail htail
      · rw [List.tail_modifyHead]
        exact htail

/-- A piece stays one in a finer split, if nothing splits it. -/
theorem mem_splitOnP_of_imp (h : ∀ a, p a = true → q a = true) (hl : t ∈ l.splitOnP p)
    (ht : ∀ a ∈ t, q a = false) : t ∈ l.splitOnP q := by
  obtain ⟨u, us, hu⟩ := List.exists_cons_of_ne_nil (List.splitOnP_ne_nil p l)
  rw [hu] at hl
  rcases List.mem_cons.mp hl with rfl | hl
  · obtain ⟨rest', hrest'⟩ := splitOnP_head_of_imp h hu ht
    rw [hrest']
    exact List.mem_cons_self
  · exact List.mem_of_mem_tail (splitOnP_tail_of_imp h (by rw [hu]; exact hl) ht)

end

section
variable {t line file : List Char} {v : Int}

/-! ## Numbers as tokens -/

theorem numeral_eq_some_iff : numeral t = some v ↔ (signOf t).2 ≠ [] ∧
    (∀ c ∈ (signOf t).2, c.isDigit = true) ∧
    v = if (signOf t).1 then -decimal (signOf t).2 else decimal (signOf t).2 := by
  have hdigits : (signOf t).2.any (!·.isDigit) = true ↔ ¬ ∀ c ∈ (signOf t).2, c.isDigit = true := by
    simp
  unfold numeral
  dsimp only
  split
  · next h =>
    rw [hdigits, or_iff_not_and_not, not_not] at h
    exact iff_of_false (by simp) fun hv => h ⟨hv.1, hv.2.1⟩
  · next h =>
    rw [hdigits, not_or, not_not] at h
    rw [Option.some.injEq]
    exact ⟨fun hv => ⟨h.1, h.2, hv.symm⟩, fun hv => hv.2.2.symm⟩

theorem atoi_eq : atoi t = (numeral t).bind fun v =>
    if -2 ^ 63 ≤ v ∧ v < 2 ^ 63 then some v else none := by
  have hsign : atoi t = if (signOf t).2 = [] ∨ (signOf t).2.any (!·.isDigit) then none
      else if (signOf t).1 then
        if decimal (signOf t).2 ≤ 2 ^ 63 then some (-decimal (signOf t).2) else none
      else if decimal (signOf t).2 < 2 ^ 63 then some (decimal (signOf t).2) else none := by
    refine if_congr Iff.rfl rfl (if_congr Iff.rfl (if_congr ?_ rfl rfl) (if_congr ?_ rfl rfl))
    · exact Int.ofNat_le.symm
    · exact Int.ofNat_lt.symm
  have hnonneg : 0 ≤ decimal (signOf t).2 := Int.natCast_nonneg _
  rw [hsign]
  unfold numeral
  dsimp only
  split
  · rfl
  · split
    · rw [Option.bind_some]
      exact if_congr (by omega) rfl rfl
    · rw [Option.bind_some]
      exact if_congr (by omega) rfl rfl

theorem atoi_eq_some_iff : atoi t = some v ↔ numeral t = some v ∧ -2 ^ 63 ≤ v ∧ v < 2 ^ 63 := by
  rw [atoi_eq, Option.bind_eq_some_iff]
  constructor
  · rintro ⟨u, hu, h⟩
    split at h
    · next hrange =>
      obtain rfl := Option.some.inj h
      exact ⟨hu, hrange⟩
    · cases h
  · rintro ⟨hv, hrange⟩
    exact ⟨v, hv, if_pos hrange⟩

/-- A character of a number. -/
theorem numeral_mem (h : numeral t = some v) {c : Char} (hc : c ∈ t) :
    c.isDigit = true ∨ c = '-' ∨ c = '+' := by
  obtain ⟨-, hdigits, -⟩ := numeral_eq_some_iff.mp h
  unfold signOf at hdigits
  split at hdigits
  · rcases List.mem_cons.mp hc with rfl | hc
    · exact .inr (.inl rfl)
    · exact .inl (hdigits c hc)
  · rcases List.mem_cons.mp hc with rfl | hc
    · exact .inr (.inr rfl)
    · exact .inl (hdigits c hc)
  · exact .inl (hdigits c hc)

theorem not_numeral_of_isSpace {c : Char} (h : isSpace c = true) :
    ¬ (c.isDigit = true ∨ c = '-' ∨ c = '+') := by
  have hcases : c = ' ' ∨ c = '\t' ∨ c = '\n' ∨ c = '\x0b' ∨ c = '\x0c' ∨ c = '\r' := by
    simpa [isSpace, or_assoc] using h
  rcases hcases with rfl | rfl | rfl | rfl | rfl | rfl <;> decide

theorem isSpace_of_numeral (h : numeral t = some v) : ∀ c ∈ t, isSpace c = false := by
  intro c hc
  by_contra hspace
  rw [Bool.not_eq_false] at hspace
  exact not_numeral_of_isSpace hspace (numeral_mem h hc)

/-- `stoi` of a number that is a whole token. -/
theorem stoi_of_numeral (h : numeral t = some v) :
    stoi t = if -2 ^ 31 ≤ v ∧ v < 2 ^ 31 then .ok v else .error .outOfRange := by
  obtain ⟨hne, hdigits, hv⟩ := numeral_eq_some_iff.mp h
  have hspace : t.dropWhile isSpace = t := by
    cases t with
    | nil => rfl
    | cons c t =>
      refine List.dropWhile_cons_of_neg ?_
      rw [isSpace_of_numeral h c List.mem_cons_self]
      exact Bool.false_ne_true
  have htake : (signOf t).2.takeWhile Char.isDigit = (signOf t).2 :=
    List.takeWhile_eq_self_iff.mpr hdigits
  unfold stoi
  dsimp only
  rw [hspace, htake, if_neg hne, ← hv]

/-- A number between single blanks is named. -/
theorem named_of_numeral (ht : t ∈ tokensOf line) (h : numeral t = some v) : Named line v := by
  unfold tokensOf at ht
  split at ht
  · cases ht
  · rw [List.splitOn_eq_splitOnP] at ht
    refine ⟨t, mem_splitOnP_of_imp (fun c hc => ?_) ht (isSpace_of_numeral h), h⟩
    rw [beq_iff_eq.mp hc]
    rfl

/-! ## Tokens that `Atoi` accepts -/

theorem atoiValue_of_some (h : atoi t = some v) : atoiValue t = v := by
  rw [atoiValue, h]

/-- If `stoi` does not throw, an accepted token is read the same, and the rest has the value 0. -/
theorem stoi_of_atoi {u : Int} (h : atoi t = some v) (hu : stoi t = .ok u) : u = v := by
  rw [stoi_of_numeral (atoi_eq_some_iff.mp h).1] at hu
  split at hu
  · exact (Except.ok.inj hu).symm
  · cases hu

/-- `stoi` reads the same digits, if there is no blank before them. -/
theorem decimal_lt_of_stoi {u : Int} (hu : stoi t = .ok u) :
    decimal ((signOf t).2.takeWhile Char.isDigit) < 2 ^ 64 := by
  cases t with
  | nil => decide
  | cons c t =>
    cases hc : isSpace c with
    | true =>
      obtain ⟨hdigit, hminus, hplus⟩ : ¬ c.isDigit = true ∧ c ≠ '-' ∧ c ≠ '+' :=
        (not_or.mp (not_numeral_of_isSpace hc)).imp_right not_or.mp
      have hsign : signOf (c :: t) = (false, c :: t) := by
        unfold signOf
        split
        · next h => exact absurd (List.cons.inj h).1 hminus
        · next h => exact absurd (List.cons.inj h).1 hplus
        · rfl
      rw [hsign, List.takeWhile_cons_of_neg hdigit]
      decide
    | false =>
      have hspace : (c :: t).dropWhile isSpace = c :: t :=
        List.dropWhile_cons_of_neg (by rw [hc]; exact Bool.false_ne_true)
      have hnonneg : 0 ≤ decimal ((signOf (c :: t)).2.takeWhile Char.isDigit) := Int.natCast_nonneg _
      unfold stoi at hu
      dsimp only at hu
      rw [hspace] at hu
      split_ifs at hu <;> omega

theorem atoiValue_of_none {u : Int} (h : atoi t = none) (hu : stoi t = .ok u) : atoiValue t = 0 := by
  rw [atoiValue, h]
  dsimp only
  cases hv : numeral t with
  | none => exact if_pos ⟨rfl, decimal_lt_of_stoi hu⟩
  | some v =>
    -- a number that is not an `int` is out of range for `stoi` too
    exfalso
    rw [stoi_of_numeral hv] at hu
    split at hu
    · next hrange =>
      have hatoi : atoi t = some v := atoi_eq_some_iff.mpr ⟨hv, by omega, by omega⟩
      rw [h] at hatoi
      cases hatoi
    · cases hu

/-! ## Lines -/

/-- What `stoi` returns. -/
def stoiValue (t : List Char) : Int := (stoi t).toOption.getD 0

theorem stoi_eq_stoiValue {u : Int} (h : stoi t = .ok u) : stoi t = .ok (stoiValue t) := by
  rw [stoiValue, h]
  rfl

theorem getlines_eq_take (file : List Char) :
    getlines file = (file.splitOn '\n').take (getlines file).length := by
  unfold getlines
  dsimp only
  split
  · rw [List.length_dropLast, List.dropLast_eq_take]
  · rw [List.take_length]

/-- Only an empty line is left out. -/
theorem mem_getlines (hline : line ∈ file.splitOn '\n') (ht : t ∈ tokensOf line) :
    line ∈ getlines file := by
  have hne : line ≠ [] := by
    rintro rfl
    cases ht
  unfold getlines
  dsimp only
  split
  · next hlast =>
    obtain ⟨init, hinit⟩ := List.getLast?_eq_some_iff.mp hlast
    rw [hinit] at hline ⊢
    rw [List.dropLast_concat]
    rcases List.mem_append.mp hline with hmem | hmem
    · exact hmem
    · exact absurd (List.mem_singleton.mp hmem) hne
  · exact hline

theorem mem_lines (h : line ∈ getlines file) : line ∈ file.splitOn '\n' := by
  rw [getlines_eq_take] at h
  exact List.mem_of_mem_take h

theorem take_parseUnavailTrace (file : List Char) :
    (parseUnavailTrace file).take (getlines file).length =
      (getlines file).map fun line => (tokensOf line).map atoiValue := by
  rw [parseUnavailTrace, ← List.map_take, ← getlines_eq_take]

theorem noThrow_of_ok {vss : List (List Int)} (h : loadFailureData file = .ok vss) : NoThrow file := by
  intro line hline t ht
  obtain ⟨vs, hvs⟩ := exists_ok_of_mapM h line (mem_getlines hline ht)
  exact exists_ok_of_mapM hvs t ht

theorem loadFailureData_of_noThrow (h : NoThrow file) : loadFailureData file =
    .ok ((getlines file).map fun line => (tokensOf line).map stoiValue) := by
  refine mapM_ok fun line hline => mapM_ok fun t ht => ?_
  obtain ⟨u, hu⟩ := h line (mem_lines hline) t ht
  exact stoi_eq_stoiValue hu

/-! ## The parsers -/

/-- **The unavailability trace.** No failure is invented and both parsers agree exactly if every token
that `Atoi` does not accept is harmless. -/
theorem readsUnavail_iff (file : List Char) : ReadsUnavail file ↔
    ∀ line ∈ file.splitOn '\n', ∀ t ∈ tokensOf line, atoi t = none → Harmless file line t := by
  constructor
  · rintro ⟨hnamed, hagree⟩ line hline t ht hatoi
    refine ⟨?_, fun hthrow => ?_⟩
    · obtain ⟨i, hi⟩ := List.getElem?_of_mem hline
      refine hnamed i line ((tokensOf line).map atoiValue) hi ?_ _ (List.mem_map_of_mem ht)
      rw [parseUnavailTrace, List.getElem?_map, hi]
      rfl
    · have hmaps := hagree _ (loadFailureData_of_noThrow hthrow)
      rw [take_parseUnavailTrace] at hmaps
      have hvalue := List.map_inj_left.mp
        (List.map_inj_left.mp hmaps line (mem_getlines hline ht)) t ht
      obtain ⟨u, hu⟩ := hthrow line hline t ht
      rw [stoi_eq_stoiValue hu, hvalue, atoiValue_of_none hatoi hu]
  · intro hharmless
    refine ⟨fun i line vs hi hvs v hv => ?_, fun vss hvss => ?_⟩
    · rw [parseUnavailTrace, List.getElem?_map, hi] at hvs
      obtain rfl := Option.some.inj hvs
      obtain ⟨t, ht, rfl⟩ := List.mem_map.mp hv
      cases hatoi : atoi t with
      | none => exact (hharmless line (List.mem_of_getElem? hi) t ht hatoi).1
      | some v =>
        rw [atoiValue_of_some hatoi]
        exact named_of_numeral ht (atoi_eq_some_iff.mp hatoi).1
    · have hthrow := noThrow_of_ok hvss
      rw [loadFailureData_of_noThrow hthrow] at hvss
      rw [← Except.ok.inj hvss, take_parseUnavailTrace]
      refine List.map_congr_left fun line hline => List.map_congr_left fun t ht => ?_
      obtain ⟨u, hu⟩ := hthrow line (mem_lines hline) t ht
      have hvalue : stoiValue t = u := Except.ok.inj ((stoi_eq_stoiValue hu).symm.trans hu)
      cases hatoi : atoi t with
      | none =>
        rw [atoiValue_of_none hatoi hu, hvalue]
        have hzero := (hharmless line (mem_lines hline) t ht hatoi).2 hthrow
        exact Except.ok.inj (hu.symm.trans hzero)
      | some v => rw [atoiValue_of_some hatoi, hvalue, stoi_of_atoi hatoi hu]

end

/-- A blank before the line end marks server 0, and so does a carriage return, in place of the server
that the simulator reads. -/
theorem blanks_not_readsUnavail :
    (parseUnavailTrace ['1', ' ', '\n'] = [[1, 0], []] ∧ ¬ ReadsUnavail ['1', ' ', '\n']) ∧
    (loadFailureData ['1', '\r', '\n'] = .ok [[1]] ∧ parseUnavailTrace ['1', '\r', '\n'] = [[0], []] ∧
      ¬ ReadsUnavail ['1', '\r', '\n']) := by
  refine ⟨⟨by decide, fun h => ?_⟩, by decide, by decide, fun h => ?_⟩
  · obtain ⟨t, ht, hzero⟩ := h.1 0 ['1', ' '] [1, 0] (by decide) (by decide) 0 (by decide)
    have hall : ∀ t ∈ ['1', ' '].splitOnP isSpace, numeral t ≠ some 0 := by decide
    exact hall t ht hzero
  · exact absurd (h.2 [[1]] (by decide)) (by decide)

end C2DN.LoadBalancer
