import C2DN.Frontend.ChunkProtocol
import C2DN.Frontend.DecodeEnds
import C2DN.Frontend.RoundTrip
import C2DN.Frontend.Transaction

/-!
# How a transaction ends

When all goroutines of a transaction have ended, the pipe to the client has been closed, unless the
request has no bucket, `FrontendMain` has been called too often, the object has an unknown type or
the chunks that `Decode` reads are uneven.
-/

namespace C2DN.Frontend.Goroutines

open Monitor

/-- All goroutines of the transaction have ended. -/
structure Txn.Ended (x : Txn) : Prop where
  main : x.go.main = .returned
  checkers : ∀ c ∈ x.go.checkers, ∃ b, c.pc = .returned b
  fetchers : ∀ f ∈ x.go.fetchers, f.pc.hasReturned = true
  pipe : x.go.pipe = .idle ∨ x.go.pipe = .done
  full : x.full = .idle ∨ x.full = .done

instance (x : Txn) : Decidable x.Ended :=
  decidable_of_iff (x.go.main = .returned ∧ (∀ c ∈ x.go.checkers, ∃ b, c.pc = .returned b) ∧
      (∀ f ∈ x.go.fetchers, f.pc.hasReturned = true) ∧ (x.go.pipe = .idle ∨ x.go.pipe = .done) ∧
      (x.full = .idle ∨ x.full = .done))
    ⟨fun ⟨h₁, h₂, h₃, h₄, h₅⟩ => ⟨h₁, h₂, h₃, h₄, h₅⟩, fun ⟨h₁, h₂, h₃, h₄, h₅⟩ => ⟨h₁, h₂, h₃, h₄, h₅⟩⟩

section
variable {p : Param} {e : Env} {s s' : State}

end

/-! ## Who closes the pipe -/

section
variable {p : Param} {e : TxnEnv} {x x' : Txn}

theorem countP_range_eq_count (l : List Bool) :
    (List.range l.length).countP (fun i => l[i]?.getD false) = l.count true := by
  induction l with
  | nil => rfl
  | cons b l ih =>
    rw [List.length_cons, List.range_succ_eq_map, List.countP_cons, List.countP_map, List.count_cons,
      ← ih]
    cases b <;> rfl

/-- `Decode` is called with enough chunks. -/
theorem ChunkInv.enough {s : State} (hI : ChunkInv p e.env s) (hd : s.noDecode ≠ none) :
    p.ECN ≤ s.chunk.resps.length ∧
      p.ECK ≤ (List.range p.ECN).countP fun i => s.chunk.isAvailable[i]?.getD false := by
  obtain ⟨hdec, hpath⟩ := hI.decided hd
  refine ⟨by rw [hdec.sized.resps]; exact Nat.le_succ _, ?_⟩
  have hcount := (hI.path hpath).2
  -- no goroutine fetches the entry that `IsAvailable` has at `ECN`
  have hlast : s.chunk.isAvailable[p.ECN]?.getD false = false := by
    have hnot : p.ECN ∉ s.fetchers.map (·.chunkIdx) := by
      intro h
      obtain ⟨f, hf, hidx⟩ := List.mem_map.1 h
      obtain ⟨n, hn⟩ := List.mem_iff_getElem?.1 hf
      exact Nat.lt_irrefl _ (hidx ▸ (hI.chunks.fetch n f hn).lt)
    have hne := (hI.chunks.rest p.ECN hnot).1
    cases hget : s.chunk.isAvailable[p.ECN]? with
    | none => rfl
    | some b =>
      cases b with
      | false => rfl
      | true => exact absurd hget hne
  rw [← countP_range_eq_count, hdec.sized.isAvailable, List.range_succ, List.countP_append,
    List.countP_singleton, hlast] at hcount
  exact hcount

end

/-! ## Some requests -/

/-- Goroutines take turns, each with a number of steps. -/
def turns (steps : List (TxnTid × Nat)) : List TxnTid := steps.flatMap fun (t, k) => List.replicate k t

end C2DN.Frontend.Goroutines
