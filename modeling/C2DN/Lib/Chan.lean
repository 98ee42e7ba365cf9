import C2DN.Lib.Outcome

/-!
# Channels and buffered writers

`Chan`: a buffered channel of goroutines, with sending, receiving and closing as atomic steps. A closed
channel still delivers what it holds.

`BufWriter`: a writer in front of a file, which gets what has been written when the buffer is full or
flushed. What is in the buffer when the file is closed is lost.
-/

namespace C2DN

structure Chan (α : Type) where
  buf : List α
  closed : Bool
  deriving DecidableEq, Repr

namespace Chan

/-- Why an operation takes no step. -/
inductive Halt where
  | blocked
  | sendOnClosed
  | closeOfClosed
  deriving DecidableEq, Repr

section
variable {α : Type} {c c' : Chan α} {a : α} {cap : Nat}

def make : Chan α := ⟨[], false⟩

def send (cap : Nat) (c : Chan α) (a : α) : Except Halt (Chan α) :=
  if c.closed then .error .sendOnClosed
  else if c.buf.length < cap then .ok { c with buf := c.buf ++ [a] } else .error .blocked

/-- `a, ok := <-c`, with `none` for `!ok`. -/
def recv (c : Chan α) : Except Halt (Option α × Chan α) :=
  match c.buf with
  | a :: buf => .ok (some a, { c with buf })
  | [] => if c.closed then .ok (none, c) else .error .blocked

def close (c : Chan α) : Except Halt (Chan α) :=
  if c.closed then .error .closeOfClosed else .ok { c with closed := true }

/-- Closed, with nothing left to deliver. -/
def Drained (c : Chan α) : Prop := c.closed = true ∧ c.buf = []

theorem send_eq_ok (h : c.send cap a = .ok c') : c.closed = false ∧ c' = ⟨c.buf ++ [a], false⟩ := by
  obtain ⟨buf, closed⟩ := c
  cases closed with
  | true => cases h
  | false =>
    rw [send, if_neg Bool.false_ne_true] at h
    split at h
    · exact ⟨rfl, (Except.ok.inj h).symm⟩
    · cases h

theorem send_error {e : Halt} (h : c.send cap a = .error e) :
    (c.closed = true ∧ e = .sendOnClosed) ∨ cap ≤ c.buf.length ∧ e = .blocked := by
  obtain ⟨buf, closed⟩ := c
  cases closed with
  | true => cases h; exact .inl ⟨rfl, rfl⟩
  | false =>
    rw [send, if_neg Bool.false_ne_true] at h
    split at h
    · cases h
    · next hfull =>
      cases h
      exact .inr ⟨Nat.le_of_not_lt hfull, rfl⟩

theorem recv_some (h : c.recv = .ok (some a, c')) : c.buf = a :: c'.buf ∧ c'.closed = c.closed := by
  obtain ⟨buf, closed⟩ := c
  cases buf with
  | cons b buf => cases h; exact ⟨rfl, rfl⟩
  | nil => cases closed <;> cases h

theorem recv_none (h : c.recv = .ok (none, c')) : c.Drained ∧ c' = c := by
  obtain ⟨buf, closed⟩ := c
  cases buf with
  | cons b buf => cases h
  | nil =>
    cases closed with
    | true => cases h; exact ⟨⟨rfl, rfl⟩, rfl⟩
    | false => cases h

theorem recv_error {e : Halt} (h : c.recv = .error e) : e = .blocked ∧ c.buf = [] ∧ c.closed = false := by
  obtain ⟨buf, closed⟩ := c
  cases buf with
  | cons b buf => cases h
  | nil =>
    cases closed with
    | true => cases h
    | false => cases h; exact ⟨rfl, rfl, rfl⟩

theorem close_eq_ok (h : c.close = .ok c') : c.closed = false ∧ c' = ⟨c.buf, true⟩ := by
  obtain ⟨buf, closed⟩ := c
  cases closed with
  | true => cases h
  | false => cases h; exact ⟨rfl, rfl⟩

theorem close_error {e : Halt} (h : c.close = .error e) : c.closed = true ∧ e = .closeOfClosed := by
  obtain ⟨buf, closed⟩ := c
  cases closed with
  | true => cases h; exact ⟨rfl, rfl⟩
  | false => cases h

end

end Chan

structure BufWriter (α : Type) where
  file : List α
  buf : List α
  deriving DecidableEq, Repr

namespace BufWriter

section
variable {α : Type} {size : Nat}

/-- The buffer is written out each time it is full and more is to come. -/
def writeString (size : Nat) (w : BufWriter α) (s : List α) : BufWriter α :=
  let text := w.buf ++ s
  let out := (text.length - 1) / size * size
  ⟨w.file ++ text.take out, text.drop out⟩

def flush (w : BufWriter α) : BufWriter α := ⟨w.file ++ w.buf, []⟩

/-- What has been written. -/
def text (w : BufWriter α) : List α := w.file ++ w.buf

theorem text_writeString (w : BufWriter α) (s : List α) :
    (w.writeString size s).text = w.text ++ s := by
  rw [text, writeString, List.append_assoc, List.take_append_drop, ← List.append_assoc]
  rfl

theorem text_flush (w : BufWriter α) : w.flush.text = w.text := List.append_nil _

theorem length_buf_writeString (hsize : 0 < size) (w : BufWriter α) (s : List α) :
    (w.writeString size s).buf.length ≤ size := by
  rw [writeString, List.length_drop]
  have hdiv := Nat.div_add_mod ((w.buf ++ s).length - 1) size
  have hmod := Nat.mod_lt ((w.buf ++ s).length - 1) hsize
  rw [Nat.mul_comm] at hdiv
  omega

end

end BufWriter

end C2DN
