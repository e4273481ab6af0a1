import ClosureML.Proofs.Machine.Code
import ClosureML.Proofs.Machine.Execution

/-!
# Runs through code

How the machine runs through code that stands in a block, and how what it does is compared with the
result of an evaluation.

* `StandsAt p label counter code`: the code stands at a place of a block;
* `RunFollows p R k s done o`: from the state `s`, the machine does what the result `o` says, of an
  evaluation whose calls may be nested `k` deep; when there is a value, it gets to the state `done`.

Main statements: `StandsAt.jump` (a branch goes to the place with its label), `RunFollows.bind` and
`RunFollows.later` (calls take steps).
-/

namespace ClosureML

open MachineState

/-! ## 1. Places of code -/

/-- The code stands at a place of a block. -/
def StandsAt (p : Program) (label : Label) (counter : Nat) (code : List Instruction) : Prop :=
  ∃ before after, p.block? label = some ⟨label, before ++ (code ++ after)⟩ ∧ before.length = counter

namespace StandsAt

variable {p : Program} {label : Label} {counter : Nat} {code code' : List Instruction}
  {i : Instruction}

theorem left (h : StandsAt p label counter (code ++ code')) : StandsAt p label counter code := by
  obtain ⟨before, after, hblock, hlength⟩ := h
  rw [List.append_assoc] at hblock
  exact ⟨before, code' ++ after, hblock, hlength⟩

theorem right (h : StandsAt p label counter (code ++ code')) :
    StandsAt p label (counter + code.length) code' := by
  obtain ⟨before, after, hblock, hlength⟩ := h
  rw [List.append_assoc, ← List.append_assoc] at hblock
  exact ⟨before ++ code, after, hblock, by rw [List.length_append, hlength]⟩

theorem tail (h : StandsAt p label counter (i :: code)) : StandsAt p label (counter + 1) code :=
  @right p label counter [i] code h

/-- The first instruction of the code is the next one. -/
theorem instruction? {s : MachineState} (h : StandsAt p s.block s.counter (i :: code)) :
    p.instruction? s = some i := by
  obtain ⟨before, after, hblock, hlength⟩ := h
  rw [Program.instruction?, hblock, ← hlength]
  exact List.getElem?_append_right (Nat.le_refl _) |>.trans (by rw [Nat.sub_self]; rfl)

theorem step {s : MachineState} (h : StandsAt p s.block s.counter (i :: code)) :
    p.step s = i.execute p { s with counter := s.counter + 1 } := by
  rw [Program.step, h.instruction?]

/-- **A branch goes to the place with its label**, since labels mark different places. -/
theorem jump (hp : p.IsLabelled) {s : MachineState} {target : Label}
    (h : StandsAt p s.block counter (.label target :: code)) :
    s.jump p target = .ok { s with counter } := by
  obtain ⟨before, after, hblock, rfl⟩ := h
  have hplaced := hp.places _ (List.mem_of_find?_eq_some hblock)
  have hbefore : ∀ i ∈ before, i ≠ .label target := by
    rintro i hi rfl
    have hmem : target ∈ placed before := List.mem_filterMap.2 ⟨_, hi, rfl⟩
    rw [placed_append, List.cons_append, placed_cons] at hplaced
    exact (List.nodup_append.1 hplaced).2.2 target hmem target
      (List.mem_append_left _ (List.mem_singleton_self _)) rfl
  have hfind : (before ++ (.label target :: code ++ after)).findIdx? (fun i => i = .label target) =
      some before.length := by
    rw [List.findIdx?_append,
      List.findIdx?_eq_none_iff.2 fun i hi => decide_eq_false (hbefore i hi),
      List.cons_append, List.findIdx?_cons, decide_eq_true rfl]
    simp
  rw [MachineState.jump, hblock]
  simp only [Option.bind_some, hfind]

end StandsAt

/-- A block is found under its label, since the labels are different. -/
theorem Program.IsLabelled.block?_eq {p : Program} (hp : p.IsLabelled) {b : Block}
    (hb : b ∈ p.blocks) : p.block? b.label = some b := by
  obtain ⟨blocks⟩ := p
  have hlabels := hp.blocks
  show blocks.find? (fun b' => b'.label = b.label) = some b
  clear hp
  induction blocks with
  | nil => cases hb
  | cons b' blocks ih =>
    obtain ⟨hnot, hlabels⟩ := List.nodup_cons.1 hlabels
    rcases List.mem_cons.1 hb with rfl | hb
    · rw [List.find?_cons, decide_eq_true rfl]
    · have hne : b'.label ≠ b.label := fun heq => hnot (heq ▸ List.mem_map_of_mem hb)
      rw [List.find?_cons, decide_eq_false hne]
      exact ih hb hlabels

/-- What a block holds stands at its start. -/
theorem Program.IsLabelled.standsAt {p : Program} (hp : p.IsLabelled) {label : Label}
    {code : List Instruction} (h : ⟨label, code⟩ ∈ p.blocks) : StandsAt p label 0 code :=
  ⟨[], [], by rw [List.append_nil, List.nil_append]; exact hp.block?_eq h, rfl⟩

/-! ## 2. Runs that follow an evaluation -/

open ClosureML.Computation

/-- **From a state, the machine does what a result says**, of an evaluation whose calls may be
    nested `k` deep: it gets to the state `done`, with a value that belongs to that of the
    evaluation; it stops for the same reason; or it takes at least `k` steps. About a result that is
    wrong nothing is said. -/
inductive RunFollows {α β : Type} (p : Program) (R : α → β → Prop) (k : Nat) (s : MachineState)
    (done : β → String → MachineState) : Result α → Prop where
  | value {a : α} {b : β} {out : String} {j : Nat} (h : R a b) (hsteps : Steps p j s (done b out)) :
      RunFollows p R k s done (.ok a out)
  | stop {e : Stop} {out : String} {j : Nat} {s' : MachineState} (he : e ≠ .timeout)
      (hsteps : Steps p j s s') (hend : p.step s' = .error (.stopped e)) (hout : s'.output = out) :
      RunFollows p R k s done (.error e out)
  | timeout {out : String} {j : Nat} {s' : MachineState} (hj : k ≤ j) (hsteps : Steps p j s s') :
      RunFollows p R k s done (.error .timeout out)
  | wrong {out : String} : RunFollows p R k s done (.error .wrong out)

namespace RunFollows

variable {α β γ δ : Type} {p : Program} {R : α → β → Prop} {S : γ → δ → Prop} {k i : Nat}
  {s s₁ : MachineState} {done : β → String → MachineState} {done' : δ → String → MachineState}
  {o : Result α}

/-- Where the evaluation gives a value, the machine gets to the end with one that belongs to it. -/
theorem value_of (h : RunFollows p R k s done o) {a : α} {out : String} (ho : o = .ok a out) :
    ∃ b j, R a b ∧ Steps p j s (done b out) := by
  subst ho
  cases h with
  | value h hsteps => exact ⟨_, _, h, hsteps⟩

/-- Where the evaluation stops, and not for want of a larger bound, the machine ends for the same
    reason. -/
theorem ends_of (h : RunFollows p R k s done o) {e : Stop} {out : String} (ho : o = .error e out)
    (hwrong : e ≠ .wrong) (htimeout : e ≠ .timeout) : p.EndsFrom s (.stopped e) out := by
  subst ho
  cases h with
  | stop _ hsteps hend hout => exact ⟨_, _, hsteps, hend, hout⟩
  | timeout => exact absurd rfl htimeout
  | wrong => exact absurd rfl hwrong

/-- Steps before a run. -/
theorem after (h : RunFollows p R k s₁ done o) (hsteps : Steps p i s s₁) :
    RunFollows p R (k + i) s done o := by
  cases h with
  | value h hsteps' => exact .value h (hsteps.trans hsteps')
  | stop he hsteps' hend hout => exact .stop he (hsteps.trans hsteps') hend hout
  | timeout hj hsteps' => exact .timeout (by omega) (hsteps.trans hsteps')
  | wrong => exact .wrong

theorem mono (h : RunFollows p R k s done o) {j : Nat} (hj : j ≤ k) :
    RunFollows p R j s done o := by
  cases h with
  | value h hsteps => exact .value h hsteps
  | stop he hsteps hend hout => exact .stop he hsteps hend hout
  | timeout hk hsteps => exact .timeout (Nat.le_trans hj hk) hsteps
  | wrong => exact .wrong

/-- Steps before a run do not matter. -/
theorem steps (h : RunFollows p R k s₁ done o) (hsteps : Steps p i s s₁) :
    RunFollows p R k s done o :=
  (h.after hsteps).mono (Nat.le_add_right _ _)

theorem step (h : RunFollows p R k s₁ done o) (hstep : p.step s = .ok s₁) :
    RunFollows p R k s done o :=
  h.steps (.one hstep)

/-- Steps behind a run. -/
theorem before {finish : β → String → MachineState} (h : RunFollows p R k s done o)
    (hsteps : ∀ a b out, R a b → ∃ j, Steps p j (done b out) (finish b out)) :
    RunFollows p R k s finish o := by
  cases h with
  | value h hrun =>
    obtain ⟨j, hj⟩ := hsteps _ _ _ h
    exact .value h (hrun.trans hj)
  | stop he hsteps hend hout => exact .stop he hsteps hend hout
  | timeout hj hsteps => exact .timeout hj hsteps
  | wrong => exact .wrong

theorem pure {a : α} {b : β} (h : R a b) (hs : s = done b s.output) :
    RunFollows p R k s done ((Pure.pure a : Computation α).within k s.output) := by
  refine .value h (j := 0) ?_
  rw [← hs]
  exact .refl

/-- **Evaluations in a row** are followed one by one. -/
theorem bind {x : Computation α} {f : α → Computation γ} {out : String}
    (h : RunFollows p R k s done (x.within k out))
    (hf : ∀ a b out, R a b → RunFollows p S k (done b out) done' ((f a).within k out)) :
    RunFollows p S k s done' ((x >>= f).within k out) := by
  rw [within_bind]
  generalize x.within k out = o at h
  cases h with
  | value h hsteps => exact (hf _ _ _ h).steps hsteps
  | stop he hsteps hend hout => exact .stop he hsteps hend hout
  | timeout hj hsteps => exact .timeout hj hsteps
  | wrong => exact .wrong

/-- What an operation or a builtin ends with, the machine ends with in one step. -/
theorem error {e : Stop} (he : e ≠ .timeout) (hstep : p.step s = .error (.stopped e)) :
    RunFollows p R k s done ((Computation.stop e : Computation α).within k s.output) :=
  .stop he .refl hstep rfl

/-- **A call takes a step**, and the calls inside may be nested one less deep. -/
theorem later {x : Computation α} {out : String} (hstep : p.step s = .ok s₁)
    (h : ∀ j < k, RunFollows p R j s₁ done (x.within j out)) :
    RunFollows p R k s done (x.later.within k out) := by
  cases k with
  | zero => exact .timeout (Nat.zero_le _) .refl
  | succ k => exact (h k (Nat.lt_succ_self k)).after (.one hstep)

end RunFollows

end ClosureML
